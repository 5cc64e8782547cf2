import EntitySdl.Name.Pattern

/-! # Rules of English inflection

Three tables hold what no rule covers: irregular pairs, words without a plural,
and the patterns of further such words.  Two lists of rules, of which the later
ones take precedence, cover the rest.
-/
namespace EntitySdl
namespace Name

open Pattern

/-- A rule: a word in which the pattern is found has the match replaced.  In the
replacement `$0` stands for the match and `$1`, `$2`, ... for the groups that
took part in it. -/
structure Rule where
  /-- What is looked for. -/
  pattern : Pattern
  /-- What takes its place. -/
  replacement : String

/-- The rule for words that end in a pattern. -/
def ending (pattern : Pattern) (replacement : String) : Rule :=
  ⟨pattern ++ .finish, replacement⟩

/-- The kept text of one of several endings. -/
def stem (stems : List String) : Pattern := .group (oneOf stems)

/-- One of several patterns, the earlier preferred. -/
def firstOf : List Pattern → Pattern
  | [] => .letterWhere fun _ => false
  | [p] => p
  | p :: ps => .either p (firstOf ps)

/-- Irregular words: singular and plural. -/
def irregularPairs : List (String × String) :=
  [("I", "we"), ("me", "us"), ("he", "they"), ("she", "they"), ("them", "them"),
   ("myself", "ourselves"), ("yourself", "yourselves"), ("itself", "themselves"),
   ("herself", "themselves"), ("himself", "themselves"), ("themself", "themselves"),
   ("is", "are"), ("was", "were"), ("has", "have"), ("this", "these"), ("that", "those"),
   ("my", "our"), ("its", "their"), ("his", "their"), ("her", "their"), ("echo", "echoes"),
   ("dingo", "dingoes"), ("volcano", "volcanoes"), ("tornado", "tornadoes"),
   ("torpedo", "torpedoes"), ("genus", "genera"), ("viscus", "viscera"), ("stigma", "stigmata"),
   ("stoma", "stomata"), ("dogma", "dogmata"), ("lemma", "lemmata"), ("schema", "schemata"),
   ("anathema", "anathemata"), ("ox", "oxen"), ("axe", "axes"), ("die", "dice"), ("yes", "yeses"),
   ("foot", "feet"), ("eave", "eaves"), ("goose", "geese"), ("tooth", "teeth"),
   ("quiz", "quizzes"), ("human", "humans"), ("proof", "proofs"), ("carve", "carves"),
   ("valve", "valves"), ("looey", "looies"), ("thief", "thieves"), ("groove", "grooves"),
   ("pickaxe", "pickaxes"), ("passerby", "passersby"), ("canvas", "canvases")]

/-- Words that have no plural. -/
def uncountableWords : List String :=
  ["adulthood", "advice", "agenda", "aid", "aircraft", "alcohol", "ammo", "analytics", "anime",
   "athletics", "audio", "bison", "blood", "bream", "buffalo", "butter", "carp", "cash",
   "chassis", "chess", "clothing", "cod", "commerce", "cooperation", "corps", "debris",
   "diabetes", "digestion", "elk", "energy", "equipment", "excretion", "expertise", "firmware",
   "flounder", "fun", "gallows", "garbage", "graffiti", "hardware", "headquarters", "health",
   "herpes", "highjinks", "homework", "housework", "information", "jeans", "justice", "kudos",
   "labour", "literature", "machinery", "mackerel", "mail", "media", "mews", "moose", "music",
   "mud", "manga", "news", "only", "personnel", "pike", "plankton", "pliers", "police",
   "pollution", "premises", "rain", "research", "rice", "salmon", "scissors", "series", "sewage",
   "shambles", "shrimp", "software", "staff", "swine", "tennis", "traffic", "transportation",
   "trout", "tuna", "wealth", "welfare", "whiting", "wildebeest", "wildlife", "you"]

/-- Endings of words that have no plural. -/
def uncountableRules : List Rule :=
  [ending (text "pok" ++ among "eé" ++ text "mon") "$0",
   ending (except "aeiou" ++ text "ese") "$0",
   ending (text "deer") "$0",
   ending (text "fish") "$0",
   ending (text "measles") "$0",
   ending (text "o" ++ among "iu" ++ text "s") "$0",
   ending (text "pox") "$0",
   ending (text "sheep") "$0"]

/-- The stems that take a Latin ending in `us` or `i`. -/
def latinUsStems : List String :=
  ["alumn", "syllab", "vir", "radi", "nucle", "fung", "cact", "stimul", "termin", "bacill",
   "foc", "uter", "loc", "strat"]

/-- The ending of words in `xus`, `tmas`, `gas` and the like. -/
def sibilantStems : List Pattern :=
  [text "alias", except "aou" ++ text "us", text "t" ++ among "lm" ++ text "as", text "gas"]

/-- The rules that form a plural. -/
def pluralRules : List Rule :=
  [ending (optional (text "s")) "s",
   ending (.letterWhere fun c => decide (0x80 ≤ c.toNat)) "$0",
   ending (.group (except "aeiou" ++ text "ese")) "$1",
   ending (stem ["ax", "test"] ++ text "is") "$1es",
   ending (.group (firstOf (sibilantStems ++ [text "ris"]))) "$1es",
   ending (.group (text "e" ++ among "mn" ++ text "u") ++ optional (text "s")) "$1s",
   ending (.group (firstOf [except "l" ++ text "ias", among "aeiou" ++ text "las",
     among "ejzr" ++ text "as", among "iu" ++ text "am"])) "$1",
   ending (stem latinUsStems ++ oneOf ["us", "i"]) "$1i",
   ending (stem ["alumn", "alg", "vertebr"] ++ oneOf ["a", "ae"]) "$1ae",
   ending (stem ["seraph", "cherub"] ++ optional (text "im")) "$1im",
   ending (stem ["her", "at", "gr"] ++ text "o") "$1oes",
   ending (stem ["agend", "addend", "millenni", "dat", "extrem", "bacteri", "desiderat", "strat",
     "candelabr", "errat", "ov", "symposi", "curricul", "automat", "quor"] ++ oneOf ["a", "um"])
     "$1a",
   ending (stem ["apheli", "hyperbat", "periheli", "asyndet", "noumen", "phenomen", "criteri",
     "organ", "prolegomen", "hedr", "automat"] ++ oneOf ["a", "on"]) "$1a",
   ending (text "sis") "ses",
   ending (firstOf [stem ["kni", "wi", "li"] ++ text "fe",
     stem ["ar", "l", "ea", "eo", "oa", "hoo"] ++ text "f"]) "$1$2ves",
   ending (.group (firstOf [except "aeiouy", text "qu"]) ++ text "y") "$1ies",
   ending (.group (except "ch" ++ among "ieo" ++ among "ln") ++ text "ey") "$1ies",
   ending (stem ["x", "ch", "ss", "sh", "zz"]) "$1es",
   ending (stem ["matr", "cod", "mur", "sil", "vert", "ind", "append"] ++ oneOf ["ix", "ex"])
     "$1ices",
   ending (.wordEdge ++ .group (firstOf [optional (text "tit") ++ text "m", text "l"]) ++
     oneOf ["ice", "ouse"]) "$1ice",
   ending (stem ["pe"] ++ oneOf ["rson", "ople"]) "$1ople",
   ending (stem ["child"] ++ optional (text "ren")) "$1ren",
   ending (text "eaux") "$0",
   ending (text "m" ++ among "ae" ++ text "n") "men",
   ending (.start ++ text "thou") "you"]

/-- The rules that form a singular. -/
def singularRules : List Rule :=
  [ending (text "s") "",
   ending (stem ["ss"]) "$1",
   ending (.group (firstOf [text "wi", text "kni",
     firstOf [text "after", text "half", text "high", text "low", text "mid", text "non",
       text "night", .letterWhere (!Text.isWordCharacter ·), .start] ++ text "li"]) ++ text "ves")
     "$1fe",
   ending (.group (firstOf [text "ar", firstOf [text "wo", among "ae"] ++ text "l",
     among "eo" ++ among "ao"]) ++ text "ves") "$1f",
   ending (text "ies") "y",
   ending (stem ["dg", "ss", "ois", "lk", "ok", "wn", "mb", "th", "ch", "ec", "oal", "is", "ck",
     "ix", "sser", "ts", "wb"] ++ text "ies") "$1ie",
   ending (.wordEdge ++ .group (firstOf [text "l",
     optional (oneOf ["neck", "cross", "hog", "aun"]) ++ text "t",
     oneOf ["coll", "faer", "food", "gen", "goon", "group", "hipp", "junk", "vegg"],
     optional (text "pork") ++ text "p", oneOf ["charl", "calor", "cut"]]) ++ text "ies") "$1ie",
   ending (.wordEdge ++ stem ["mon", "smil"] ++ text "ies") "$1ey",
   ending (.wordEdge ++ .group (firstOf [optional (text "tit") ++ text "m", text "l"]) ++
     text "ice") "$1ouse",
   ending (stem ["seraph", "cherub"] ++ text "im") "$1",
   ending (.group (firstOf ([oneOf ["x", "ch", "ss", "sh", "zz", "tto", "go", "cho"]] ++
     sibilantStems ++ [oneOf ["her", "at", "gr"] ++ text "o", among "aeiou" ++ text "ris"])) ++
     optional (text "es")) "$1",
   ending (stem ["analy", "diagno", "parenthe", "progno", "synop", "the", "empha", "cri", "ne"] ++
     oneOf ["sis", "ses"]) "$1sis",
   ending (.group (firstOf [text "movie", text "twelve", text "abuse",
     text "e" ++ among "mn" ++ text "u"]) ++ text "s") "$1",
   ending (stem ["test"] ++ oneOf ["is", "es"]) "$1is",
   ending (stem latinUsStems ++ oneOf ["us", "i"]) "$1us",
   ending (stem ["agend", "addend", "millenni", "dat", "extrem", "bacteri", "desiderat", "strat",
     "candelabr", "errat", "ov", "symposi", "curricul", "quor"] ++ text "a") "$1um",
   ending (stem ["apheli", "hyperbat", "periheli", "asyndet", "noumen", "phenomen", "criteri",
     "organ", "prolegomen", "hedr", "automat"] ++ text "a") "$1on",
   ending (stem ["alumn", "alg", "vertebr"] ++ text "ae") "$1a",
   ending (stem ["cod", "mur", "sil", "vert", "ind"] ++ text "ices") "$1ex",
   ending (stem ["matr", "append"] ++ text "ices") "$1ix",
   ending (stem ["pe"] ++ stem ["rson", "ople"]) "$1rson",
   ending (stem ["child"] ++ text "ren") "$1",
   ending (stem ["eau"] ++ optional (text "x")) "$1",
   ending (text "men") "man"]

end Name
end EntitySdl
