import Dataspoke.Python
import Dataspoke.Regex

/-!
# Redaction of error messages

`sanitize_error_message`: the normalization, the scrub of the secrets a caller holds, and the
patterns, each a pass over the text the one before leaves.
-/

namespace Dataspoke
namespace Redaction

open Python Regex

section Characters

/-- The general categories of control and format characters, of the other characters that are
not printable, and of the printable ones. -/
inductive Category
  | control | format | surrogate | private_use | unassigned | separator | visible
  deriving DecidableEq

/-- What the runtime knows of the characters above ASCII. -/
structure Unicode where
  category : Char → Category
  isalnum : Char → Bool

variable (U : Unicode)

def category (c : Char) : Category :=
  if c.toNat < 128 then
    if c.toNat < 32 || c.toNat = 127 then .control
    else if c = ' ' then .separator
    else .visible
  else U.category c

/-- The space is the one separator that is printable. -/
def isprintable (c : Char) : Bool := c = ' ' || category U c = .visible

/-- `\w`. -/
def isword (c : Char) : Bool :=
  c = '_' || if c.toNat < 128 then c.isAlphanum else U.isalnum c

/-- A lower-case ASCII letter under `(?i)`; other characters match themselves. -/
def folds (letter c : Char) : Bool :=
  c = letter || c = letter.toUpper || (letter = 'i' && (c = '\u0130' || c = '\u0131')) ||
    (letter = 's' && c = '\u017f') || (letter = 'k' && c = '\u212a')

end Characters

def MIN_SECRET_LENGTH : ℕ := 6

def MAX_INPUT_LENGTH : ℕ := 65536

def MAX_SCAN_LENGTH : ℕ := 8192

def REDACTED : Str := "<redacted>".toList

/-- `str.split()`. -/
def split (text : Str) : List Str := (text.splitOnP isspace).filter fun word => word ≠ []

def normalize (U : Unicode) (message : Str) : Str :=
  let text := [' '].intercalate (split (message.take MAX_INPUT_LENGTH))
  text.filter fun c => c = ' ' || (isprintable U c && category U c ≠ .format)

section Patterns

variable (U : Unicode)

/-- `\b`. -/
def boundary : Re := .look fun before rest =>
  (before.head?.any (isword U)) != (rest.head?.any (isword U))

/-- A word under `(?i)`. -/
def folded (letters : String) : Re := .word folds letters.toList

/-- `\s*[=:]\s*`. -/
def separator : Re :=
  .seq (.rep isspace 0 none) (.seq (.cls fun c => c = '=' || c = ':') (.rep isspace 0 none))

/-- `["']?`. -/
def quote : Re := .opt (.cls fun c => c = '\x22' || c = '\x27')

/-- `\S+`. -/
def chunk : Re := .rep (fun c => !isspace c) 1 none

/-- `\s+`. -/
def gap : Re := .rep isspace 1 none

/-- `(?<=://)[^/\s]*@`. -/
def userinfo : Re :=
  .seq (.look fun before _ => ['/','/',':'].isPrefixOf before)
    (.seq (.rep (fun c => c ≠ '/' && !isspace c) 0 none) (.cls fun c => c = '@'))

def authorization : Re :=
  .seq (boundary U) (.seq (folded "authorization") (.seq (boundary U)
    (.seq (.group 1 separator) (.seq quote (.seq chunk (.opt (.seq gap chunk)))))))

def scheme : Re :=
  .seq (boundary U) (.seq (.group 1 (.alt (folded "bearer") (folded "basic"))) (.seq gap chunk))

/-- `[\w.-]`. -/
def nameChar (c : Char) : Bool := isword U c || c = '.' || c = '-'

/-- `[-_.]`. -/
def delimiter (c : Char) : Bool := c = '-' || c = '_' || c = '.'

def NAME_PREFIX : Re := .opt (.seq (.rep (nameChar U) 0 (some 60)) (.cls delimiter))

def NAME_SUFFIX : Re := .opt (.seq (.cls delimiter) (.rep (nameChar U) 0 (some 60)))

/-- A word, an optional delimiter and `key`. -/
def keyName (letters : String) : Re :=
  .seq (folded letters) (.seq (.opt (.cls delimiter)) (folded "key"))

def CREDENTIAL_NAME : Re :=
  .anyOf [folded "token",folded "secret",folded "password",folded "pwd",folded "credential",
    folded "apikey",keyName "api",keyName "access",keyName "secret",keyName "private"]

/-- `(?P<name>…)`. -/
def credentialName : Re := .seq (NAME_PREFIX U) (.seq CREDENTIAL_NAME (NAME_SUFFIX U))

/-- `[^"'\s,;}\]&]`. -/
def valueChar (c : Char) : Bool :=
  !(c = '\x22' || c = '\x27' || isspace c || c = ',' || c = ';' || c = '\x7d' || c = ']' || c = '&')

def credential : Re :=
  .seq (.look fun before _ => !before.head?.any (nameChar U))
    (.seq (.group 1 (credentialName U)) (.seq (.look fun _ rest => !rest.head?.any (isword U))
      (.seq quote (.seq (.group 2 separator) (.seq quote (.rep valueChar 1 none))))))

/-- The text of a group. -/
def captured (m : Match) (i : ℕ) : Str :=
  ((m.groups.find? fun g => g.1 = i).map Prod.snd).getD []

def PATTERNS : List (Re × (Match → Str)) :=
  [(userinfo,fun _ => []),
    (authorization U,fun m => "Authorization".toList ++ captured m 1 ++ REDACTED),
    (scheme U,fun m => captured m 1 ++ [' '] ++ REDACTED),
    (credential U,fun m => captured m 1 ++ captured m 2 ++ REDACTED)]

end Patterns

/-- `" *".join(re.escape(c) for c in secret)`. -/
def space_tolerant : Str → Re
  | [] => .look fun _ _ => true
  | [c] => .cls fun d => d = c
  | c::secret => .seq (.cls fun d => d = c) (.seq (.rep (fun d => d = ' ') 0 none)
      (space_tolerant secret))

/-- One round of the loop over the secrets. -/
def scrub (text secret : Str) : Str :=
  if MIN_SECRET_LENGTH ≤ secret.length then
    sub (space_tolerant secret) (fun _ => REDACTED) 0 [] text
  else text

def sanitize_error_message (U : Unicode) (message : Option Str) (secrets : List Str) :
    Option Str :=
  match message with
  | none => none
  | some [] => none
  | some message =>
    let text := secrets.foldl scrub (normalize U message)
    let text := (PATTERNS U).foldl (fun text p => sub p.1 p.2 0 [] text)
      (text.take MAX_SCAN_LENGTH)
    if text = [] then none else some text

end Redaction
end Dataspoke
