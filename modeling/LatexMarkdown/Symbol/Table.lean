import LatexMarkdown.KeyedList

/-!
# Symbols and accents

Commands that stand for a symbol, and accents with the letters that they are
put on. An accented letter without a form of its own is written as the letter
and a combining mark.
-/

namespace LatexMarkdown.Symbol

/-- Entries with their keys and values as characters. -/
def entriesOf (entries : List (String × String)) : KeyedList Text :=
  entries.map fun (key, value) => (key.toList, value.toList)

/-- Commands by name, with the text that they stand for. -/
def textSymbols : KeyedList Text :=
  entriesOf [
    ("ldots", "…"), ("dots", "…"), ("textellipsis", "…"), ("S", "§"), ("P", "¶"),
    ("copyright", "©"), ("textcopyright", "©"), ("textregistered", "®"), ("texttrademark", "™"),
    ("dag", "†"), ("dagger", "†"), ("ddag", "‡"), ("ddagger", "‡"), ("ss", "ß"), ("ae", "æ"),
    ("AE", "Æ"), ("oe", "œ"), ("OE", "Œ"), ("aa", "å"), ("AA", "Å"), ("o", "ø"), ("O", "Ø"),
    ("l", "ł"), ("L", "Ł"), ("i", "ı"), ("j", "ȷ"), ("LaTeX", "LaTeX"), ("LaTeXe", "LaTeX2ε"),
    ("TeX", "TeX"), ("textbackslash", "&#92;"), ("textasciitilde", "&#126;"),
    ("textasciicircum", "^"), ("textunderscore", "\\_"), ("textbar", "|"), ("textless", "&lt;"),
    ("textgreater", "&gt;"), ("textbullet", "•"), ("textperiodcentered", "·"),
    ("textdegree", "°"), ("textendash", "&ndash;"), ("textemdash", "&mdash;"),
    ("textquoteleft", "‘"), ("textquoteright", "’"), ("textquotedblleft", "“"),
    ("textquotedblright", "”"), ("guillemotleft", "«"), ("guillemotright", "»"),
    ("textexclamdown", "¡"), ("textquestiondown", "¿"), ("pounds", "£"), ("textsterling", "£"),
    ("euro", "€"), ("texteuro", "€"), ("checkmark", "✓"), ("today", "")]

/-- Combining marks by the name of the accent. -/
def accentMarks : KeyedList Text :=
  entriesOf [
    ("'", "\u0301"), ("`", "\u0300"), ("^", "\u0302"), ("\"", "\u0308"), ("~", "\u0303"),
    ("=", "\u0304"), (".", "\u0307"), ("c", "\u0327"), ("v", "\u030c"), ("u", "\u0306"),
    ("H", "\u030b"), ("k", "\u0328"), ("r", "\u030a")]

/-- Accented letters that are characters of their own, by accent and letter. -/
def precomposed : KeyedList Text :=
  entriesOf [
    ("'a", "á"), ("'e", "é"), ("'i", "í"), ("'o", "ó"), ("'u", "ú"), ("'y", "ý"), ("'A", "Á"),
    ("'E", "É"), ("'I", "Í"), ("'O", "Ó"), ("'U", "Ú"), ("'Y", "Ý"), ("'n", "ń"), ("'c", "ć"),
    ("'s", "ś"), ("'z", "ź"), ("`a", "à"), ("`e", "è"), ("`i", "ì"), ("`o", "ò"), ("`u", "ù"),
    ("`A", "À"), ("`E", "È"), ("`I", "Ì"), ("`O", "Ò"), ("`U", "Ù"), ("^a", "â"), ("^e", "ê"),
    ("^i", "î"), ("^o", "ô"), ("^u", "û"), ("^A", "Â"), ("^E", "Ê"), ("^I", "Î"), ("^O", "Ô"),
    ("^U", "Û"), ("\"a", "ä"), ("\"e", "ë"), ("\"i", "ï"), ("\"o", "ö"), ("\"u", "ü"),
    ("\"y", "ÿ"), ("\"A", "Ä"), ("\"E", "Ë"), ("\"I", "Ï"), ("\"O", "Ö"), ("\"U", "Ü"),
    ("~a", "ã"), ("~n", "ñ"), ("~o", "õ"), ("~A", "Ã"), ("~N", "Ñ"), ("~O", "Õ"), ("cc", "ç"),
    ("cC", "Ç"), ("cs", "ş"), ("cS", "Ş"), ("vs", "š"), ("vS", "Š"), ("vc", "č"), ("vC", "Č"),
    ("vz", "ž"), ("vZ", "Ž"), ("vr", "ř"), ("vR", "Ř"), ("ve", "ě"), ("vE", "Ě"), ("vn", "ň"),
    ("ra", "å"), ("rA", "Å"), ("ru", "ů"), ("rU", "Ů"), ("ug", "ğ"), ("uG", "Ğ"), ("ua", "ă"),
    ("uA", "Ă"), ("Ho", "ő"), ("HO", "Ő"), ("Hu", "ű"), ("HU", "Ű"), ("ka", "ą"), ("kA", "Ą"),
    ("ke", "ę"), ("kE", "Ę"), ("=a", "ā"), ("=e", "ē"), ("=i", "ī"), ("=o", "ō"), ("=u", "ū"),
    (".z", "ż"), (".Z", "Ż"), (".I", "İ")]

/-- An accent put on a letter. An unknown accent leaves the letter alone. -/
def composeAccent (accent letter : Text) : Text :=
  match KeyedList.find? precomposed (accent ++ letter) with
  | some composed => composed
  | none =>
    match KeyedList.find? accentMarks accent with
    | some mark => letter ++ mark
    | none => letter

end LatexMarkdown.Symbol
