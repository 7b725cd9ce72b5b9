import GraphicsPipeline.Demo.Scene

/-!
# The command line

What the words of the command line ask for: a scene by its name, and options that each take one
value. An option is written with two dashes and its name, or with one dash and its letter; its value
follows as the next word, after an equals sign, or right after the letter. The first word that is
wrong, or that asks for help, ends the reading.
-/

namespace GraphicsPipeline.Demo

inductive Setting where
  | out
  | threads
  | count
  | size
deriving DecidableEq, Repr, Inhabited

namespace Setting

def ofName? (name : String) : Option Setting :=
  if name = "out" then some out
  else if name = "threads" then some threads
  else if name = "size" then some size
  else none

def ofLetter? : Char → Option Setting
  | 'o' => some out
  | 't' => some threads
  | 'N' => some count
  | 's' => some size
  | _ => none

end Setting

structure Options where
  scene : Option Scene := none
  out : Option String := none
  threads : Option Nat := none
  count : Option Nat := none
  size : Option Nat := none
deriving DecidableEq, Repr, Inhabited

/-- Why no scene is drawn. -/
inductive Stop where
  | usage
  | information
deriving DecidableEq, Repr

/-- The number that decimal digits stand for; there has to be one at least. -/
def parseDigits? (digits : List Char) : Option Nat :=
  if !digits.isEmpty && digits.all Char.isDigit then
    some (digits.foldl (fun n c => 10 * n + (c.toNat - '0'.toNat)) 0)
  else none

/-- A natural number up to a bound. A plus sign may stand in front. -/
def parseNatural? (bound : Nat) (text : String) : Option Nat :=
  let number := match text.toList with
    | '+' :: digits => parseDigits? digits
    | digits => parseDigits? digits
  number.filter (· ≤ bound)

/-- An integer from zero up to a bound. A plus or a minus sign may stand in front, so that zero has
a negative spelling. -/
def parseInteger? (bound : Nat) (text : String) : Option Nat :=
  match text.toList with
  | '-' :: digits => (parseDigits? digits).filter (· = 0)
  | _ => parseNatural? bound text

namespace Options

/-- A value that was not given before. -/
def fresh {α : Type} (old new : Option α) : Except Stop (Option α) :=
  if old.isNone && new.isSome then .ok new else .error .usage

/-- The options with the value of one of them. An option is given once at most. A file has a name,
threads and pictures are counted with natural numbers, and a size is an integer. -/
def set (o : Options) (s : Setting) (value : String) : Except Stop Options :=
  match s with
  | .out => return { o with out := ← fresh o.out (if value.isEmpty then none else some value) }
  | .threads =>
    let number := (parseNatural? (UInt64.size - 1) value).filter (0 < ·)
    return { o with threads := ← fresh o.threads number }
  | .count => return { o with count := ← fresh o.count (parseNatural? (UInt64.size - 1) value) }
  | .size => return { o with size := ← fresh o.size (parseInteger? (UInt32.size - 1) value) }

/-- The options with a scene, of which there is one at most. -/
def setScene (o : Options) (name : String) : Except Stop Options :=
  return { o with scene := ← fresh o.scene (Scene.ofName? name) }

/-- A word that is read as an option where one can stand. -/
def looksLikeOption (word : List Char) : Bool :=
  match word with
  | '-' :: _ :: _ => true
  | _ => false

def setNext (o : Options) (s : Setting) :
    List (List Char) → Except Stop (Options × List (List Char))
  | [] => .error .usage
  | word :: rest =>
    if looksLikeOption word then .error .usage
    else return (← o.set s (String.ofList word), rest)

/-- A word of two dashes and a name, perhaps with a value after an equals sign. -/
def readLong (o : Options) (word : List Char) (rest : List (List Char)) :
    Except Stop (Options × List (List Char)) :=
  let name := String.ofList (word.takeWhile (· ≠ '='))
  let value := word.dropWhile (· ≠ '=')
  match Setting.ofName? name, value with
  | some s, [] => o.setNext s rest
  | some s, _ :: value => return (← o.set s (String.ofList value), rest)
  | none, [] => .error (if name = "help" ∨ name = "version" then .information else .usage)
  | none, _ => .error .usage

/-- A word of one dash and a letter, perhaps with a value right after it. -/
def readShort (o : Options) (letter : Char) (value : List Char) (rest : List (List Char)) :
    Except Stop (Options × List (List Char)) :=
  match Setting.ofLetter? letter, value with
  | some s, [] => o.setNext s rest
  | some s, '=' :: value => return (← o.set s (String.ofList value), rest)
  | some s, value => return (← o.set s (String.ofList value), rest)
  | none, _ => .error (if letter = 'h' ∨ letter = 'V' then .information else .usage)

/-- Reads one word that may be an option, and the words after it that belong to it. -/
def readWord (o : Options) (word : List Char) (rest : List (List Char)) :
    Except Stop (Options × List (List Char)) :=
  match word with
  | '-' :: '-' :: name => o.readLong name rest
  | '-' :: letter :: value => o.readShort letter value rest
  | word => return (← o.setScene (String.ofList word), rest)

/-- Reads words one after another. After two lone dashes no word is an option. Every word that is
read uses up some of the fuel. -/
def readWords : (fuel : Nat) → Options → List (List Char) → Except Stop Options
  | 0, o, _ => .ok o
  | _, o, [] => .ok o
  | _, o, ['-', '-'] :: rest => rest.foldlM (fun o word => o.setScene (String.ofList word)) o
  | fuel + 1, o, word :: rest => do
    let (o, rest) ← o.readWord word rest
    readWords fuel o rest

def parse (words : List String) : Except Stop Options :=
  readWords words.length {} (words.map String.toList)

/-- The settings of the draws: one thread is the caller's. -/
def config (o : Options) : Config where
  threads :=
    match o.threads with
    | none => some .shared
    | some 1 => none
    | some n => some (.own n)

def render (o : Options) : Except Fault Texture :=
  (o.scene.getD .gradient).render o.config (UInt32.ofNat (o.size.getD 256)) (o.count.getD 1)

end Options

end GraphicsPipeline.Demo
