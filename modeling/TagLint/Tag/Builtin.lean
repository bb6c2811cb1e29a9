import TagLint.Tag.Spec

/-!
# Builtin tag specs — the HTML and template tags that are always checked
-/

namespace TagLint.TagSpecs

def encodings : List String :=
  ["on", "off", "htmlcontent", "htmlsinglequote", "htmldoublequote", "htmlunquote", "jshtml",
   "jsattribute", "jsblock", "jssource", "jsonvalue", "uricomponent", "uristrict", "xmlcontent",
   "xmlsinglequote", "xmldoublequote", "xmlcomment"]

def scopes : List String := ["session", "request", "page", "pdict"]

def objectViews : List String := ["none", "searchhit", "recommendation", "setproduct", "detail"]

/-- The specs of the builtin tags. -/
def builtinSpecs : List TagSpec :=
  [
   -- HTML
   ⟨"a", .mustNotSelfClose, [.alternatives "href"], [], ["alt"]⟩,
   ⟨"div", .mustNotSelfClose, [], [], []⟩,
   ⟨"main", .mustNotSelfClose, [], [], ["role"]⟩,
   ⟨"nav", .mustNotSelfClose, [], [], ["role"]⟩,
   ⟨"script", .unconstrained, [], [.valued "async" ["async"], .valued "defer" ["defer"]], []⟩,
   ⟨"img", .unconstrained, [.alternatives "src", .alternatives "alt"], [], []⟩,
   -- conditionals and loops
   ⟨"isif", .mustNotSelfClose, [.alternatives "condition"], [], []⟩,
   ⟨"iselseif", .unconstrained, [.alternatives "condition"], [], []⟩,
   ⟨"iselse", .unconstrained, [], [], ["condition"]⟩,
   ⟨"isloop", .mustNotSelfClose, [.alternatives "items|iterator"], [], []⟩,
   ⟨"isbreak", .mustSelfClose, [], [], []⟩,
   ⟨"iscontinue", .mustSelfClose, [], [], []⟩,
   ⟨"isnext", .mustSelfClose, [], [], []⟩,
   -- variables and output
   ⟨"isset", .mustSelfClose, [.alternatives "name", .alternatives "value"], [.valued "scope" scopes], []⟩,
   ⟨"isremove", .mustSelfClose, [.alternatives "name"], [.valued "scope" scopes], ["value"]⟩,
   ⟨"isprint", .mustSelfClose, [.alternatives "value"],
    [.valued "encoding" encodings, .valued "timezone" ["SITE", "INSTANCE", "utc"]], []⟩,
   -- composition
   ⟨"isinclude", .mustSelfClose, [.alternatives "template|url"], [.valued "sf-toolkit" ["on", "off"]], []⟩,
   ⟨"isdecorate", .mustNotSelfClose, [.alternatives "template"], [], []⟩,
   ⟨"isreplace", .mustSelfClose, [], [], []⟩,
   ⟨"ismodule", .mustSelfClose, [.alternatives "template", .alternatives "name"], [], []⟩,
   ⟨"iscomponent", .mustSelfClose, [.alternatives "pipeline"], [], []⟩,
   ⟨"isslot", .mustSelfClose, [.alternatives "id", .valued "context" ["global", "category", "folder"],
    .alternatives "description"], [], []⟩,
   ⟨"isobject", .mustNotSelfClose, [.alternatives "object", .valued "view" objectViews], [], []⟩,
   -- response control
   ⟨"iscontent", .mustSelfClose, [], [.valued "encoding" ["on", "off", "html", "xml", "wml"],
    .valued "compact" ["true", "false"]], []⟩,
   ⟨"iscache", .mustSelfClose, [.valued "type" ["relative", "daily"], .alternatives "hour|minute"],
    [.valued "varyby" ["price_promotion"]], []⟩,
   ⟨"isredirect", .mustSelfClose, [.alternatives "location"], [.valued "permanent" ["true", "false"]], []⟩,
   ⟨"isstatus", .mustSelfClose, [.alternatives "value"], [], []⟩,
   ⟨"isselect", .mustSelfClose, [.alternatives "iterator", .alternatives "description", .alternatives "value",
    .alternatives "condition"], [.valued "encoding" ["on", "off"]], []⟩,
   -- analytics
   ⟨"isactivedatahead", .mustSelfClose, [], [], []⟩,
   ⟨"isactivedatacontext", .mustSelfClose, [.alternatives "category"], [], []⟩,
   ⟨"isanalyticsoff", .mustSelfClose, [], [], []⟩,
   -- raw blocks
   ⟨"iscomment", .mustNotSelfClose, [], [], []⟩,
   ⟨"isscript", .mustNotSelfClose, [], [], []⟩
  ]

/-- The registry of the builtin tags. -/
def builtin : TagSpecs := ofSpecs builtinSpecs

end TagLint.TagSpecs
