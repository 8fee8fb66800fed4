/-
The names of sets of characters in patterns.

`\p` asks for a set by a name of its own, or by the name of a property together
with a value.  Upper and lower case, blanks, hyphens and underscores make no
difference in names, and neither does `is` in front.
-/
import TreeWalk.Text.Age
import TreeWalk.Text.Boundary
import TreeWalk.Text.Identifier
import TreeWalk.Text.LetterCase

namespace TreeWalk
namespace Regex
namespace Property

/-- A name reduced to what matters when names are compared: lower-case ASCII
characters other than separators, without a leading `is`. -/
def normalize (name : String) : String :=
  let keep (cs : List Char) : List Char :=
    (cs.filter fun c => c.toNat < 128 && c != ' ' && c != '_' && c != '-').map Char.toLower
  match name.toList with
  | i :: s :: rest =>
    if i.toLower = 'i' ∧ s.toLower = 's' then
      -- The short name of a property that no pattern can ask for.
      if keep rest = ['c'] then "isc" else String.ofList (keep rest)
    else String.ofList (keep (i :: s :: rest))
  | cs => String.ofList (keep cs)

/-- The set with a given reduced name on a list of sets with their names. -/
def find? (entries : List Boundary.Entry) (name : String) : Option CharSet :=
  (entries.find? fun e => e.names.any (normalize · == name)).map (·.set)

/-- The properties that a character has or has not. -/
def flags : List Boundary.Entry :=
  [⟨["AHex", "ASCII_Hex_Digit"], Sign.asciiHexDigit⟩,
    ⟨["Alpha", "Alphabetic"], CharClass.alphabetic⟩,
    ⟨["Bidi_C", "Bidi_Control"], Sign.bidiControl⟩,
    ⟨["Bidi_M", "Bidi_Mirrored"], Sign.bidiMirrored⟩,
    ⟨["CI", "Case_Ignorable"], CharClass.caseIgnorable⟩,
    ⟨["Cased"], CharClass.cased⟩,
    ⟨["CWCF", "Changes_When_Casefolded"], LetterCase.changesCasefolded⟩,
    ⟨["CWCM", "Changes_When_Casemapped"], LetterCase.changesCasemapped⟩,
    ⟨["CWL", "Changes_When_Lowercased"], LetterCase.changesLowercased⟩,
    ⟨["CWT", "Changes_When_Titlecased"], LetterCase.changesTitlecased⟩,
    ⟨["CWU", "Changes_When_Uppercased"], LetterCase.changesUppercased⟩,
    ⟨["Dash"], Sign.dash⟩,
    ⟨["DI", "Default_Ignorable_Code_Point"], Sign.defaultIgnorable⟩,
    ⟨["Dep", "Deprecated"], Sign.deprecated⟩,
    ⟨["Dia", "Diacritic"], Sign.diacritic⟩,
    ⟨["Emoji"], Emoji.emoji⟩,
    ⟨["EComp", "Emoji_Component"], Emoji.component⟩,
    ⟨["EMod", "Emoji_Modifier"], Emoji.modifier⟩,
    ⟨["EBase", "Emoji_Modifier_Base"], Emoji.modifierBase⟩,
    ⟨["EPres", "Emoji_Presentation"], Emoji.presentation⟩,
    ⟨["ExtPict", "Extended_Pictographic"], Emoji.pictographic⟩,
    ⟨["Ext", "Extender"], Sign.extender⟩,
    ⟨["Gr_Base", "Grapheme_Base"], Sign.graphemeBase⟩,
    ⟨["Gr_Ext", "Grapheme_Extend"], CharClass.graphemeExtend⟩,
    ⟨["Gr_Link", "Grapheme_Link"], Sign.graphemeLink⟩,
    ⟨["Hex", "Hex_Digit"], Sign.hexDigit⟩,
    ⟨["Hyphen"], Sign.hyphen⟩,
    ⟨["IDSB", "IDS_Binary_Operator"], Ideograph.binaryOperator⟩,
    ⟨["IDST", "IDS_Trinary_Operator"], Ideograph.trinaryOperator⟩,
    ⟨["IDSU", "IDS_Unary_Operator"], Ideograph.unaryOperator⟩,
    ⟨["ID_Compat_Math_Continue"], Identifier.mathContinue⟩,
    ⟨["ID_Compat_Math_Start"], Identifier.mathStart⟩,
    ⟨["IDC", "ID_Continue"], Identifier.continuing⟩,
    ⟨["IDS", "ID_Start"], Identifier.start⟩,
    ⟨["Ideo", "Ideographic"], Ideograph.ideographic⟩,
    ⟨["Join_C", "Join_Control"], CharClass.joinControl⟩,
    ⟨["LOE", "Logical_Order_Exception"], Sign.logicalOrderException⟩,
    ⟨["Lower", "Lowercase"], CharClass.lowercase⟩,
    ⟨["Math"], Sign.math⟩,
    ⟨["MCM", "Modifier_Combining_Mark"], Sign.modifierCombining⟩,
    ⟨["NChar", "Noncharacter_Code_Point"], Sign.noncharacter⟩,
    ⟨["OAlpha", "Other_Alphabetic"], CharClass.otherAlphabetic⟩,
    ⟨["ODI", "Other_Default_Ignorable_Code_Point"], Sign.otherDefaultIgnorable⟩,
    ⟨["OGr_Ext", "Other_Grapheme_Extend"], CharClass.otherGraphemeExtend⟩,
    ⟨["OIDC", "Other_ID_Continue"], Identifier.otherContinue⟩,
    ⟨["OIDS", "Other_ID_Start"], Identifier.otherStart⟩,
    ⟨["OLower", "Other_Lowercase"], CharClass.otherLowercase⟩,
    ⟨["OMath", "Other_Math"], Sign.otherMath⟩,
    ⟨["OUpper", "Other_Uppercase"], CharClass.otherUppercase⟩,
    ⟨["Pat_Syn", "Pattern_Syntax"], Identifier.patternSyntax⟩,
    ⟨["Pat_WS", "Pattern_White_Space"], Identifier.patternWhiteSpace⟩,
    ⟨["PCM", "Prepended_Concatenation_Mark"], Sign.prependedConcatenation⟩,
    ⟨["QMark", "Quotation_Mark"], Sign.quotationMark⟩,
    ⟨["Radical"], Ideograph.radical⟩,
    ⟨["RI", "Regional_Indicator"], Emoji.regionalIndicator⟩,
    ⟨["STerm", "Sentence_Terminal"], Sign.sentenceTerminal⟩,
    ⟨["SD", "Soft_Dotted"], Sign.softDotted⟩,
    ⟨["Term", "Terminal_Punctuation"], Sign.terminal⟩,
    ⟨["UIdeo", "Unified_Ideograph"], Ideograph.unified⟩,
    ⟨["Upper", "Uppercase"], CharClass.uppercase⟩,
    ⟨["VS", "Variation_Selector"], Sign.variationSelector⟩,
    ⟨["WSpace", "White_Space", "space"], CharClass.whiteSpace⟩,
    ⟨["XIDC", "XID_Continue"], Identifier.stableContinuing⟩,
    ⟨["XIDS", "XID_Start"], Identifier.stableStart⟩]

/-- Groups of general categories, by their reduced names. -/
def categoryGroup? : String → Option (Category → Bool)
  | "l" | "letter" => some Category.isLetter
  | "lc" | "casedletter" => some Category.isCasedLetter
  | "m" | "mark" | "combiningmark" => some Category.isMark
  | "n" | "number" => some Category.isNumber
  | "p" | "punctuation" | "punct" => some Category.isPunctuation
  | "s" | "symbol" => some Category.isSymbol
  | "z" | "separator" => some Category.isSeparator
  | "c" | "other" => some Category.isOther
  | _ => none

/-- The characters of a general category or of a group of them.  Surrogates are
no characters, and their category has no name. -/
def ofCategory? (name : String) : Option CharSet :=
  match name with
  | "any" => some .any
  | "ascii" => some (.range 0 127)
  | "assigned" => some (Category.set [.cn]).complement
  | _ =>
    match categoryGroup? name with
    | some test => some (Category.set (Category.all.filter test))
    | none =>
      (Category.all.find? fun g =>
        g != .cs && (g.code :: g.longNames).any (normalize · == name)).map
        fun g => Category.set [g]

/-- The code of the script with a given reduced name. -/
def scriptCode? (name : String) : Option String :=
  (Script.names.find? fun names => names.any (normalize · == name)).bind (·.head?)

/-- The characters that a version of the standard knows. -/
def ofAge? (name : String) : Option CharSet :=
  (Age.versions.find? fun v => normalize v == name || Age.pointed v == name).map Age.set

/-- The set that a name on its own stands for.  Three names that belong both to a
category and to a property stand for the category. -/
def ofName? (name : String) : Option CharSet :=
  let name := normalize name
  let flag := if name = "cf" ∨ name = "sc" ∨ name = "lc" then none else find? flags name
  flag <|> ofCategory? name <|> (scriptCode? name).map Script.set

/-- The set of the characters whose property of a given name has a given value. -/
def ofValue? (name value : String) : Option CharSet :=
  let value := normalize value
  match normalize name with
  | "gc" | "generalcategory" => ofCategory? value
  | "sc" | "script" => (scriptCode? value).map Script.set
  | "scx" | "scriptextensions" => (scriptCode? value).map Script.usedWith
  | "age" => ofAge? value
  | "gcb" | "graphemeclusterbreak" => find? Boundary.grapheme value
  | "wb" | "wordbreak" => find? Boundary.word value
  | "sb" | "sentencebreak" => find? Boundary.sentence value
  | _ => none

end Property
end Regex
end TreeWalk
