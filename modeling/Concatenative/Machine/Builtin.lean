import Concatenative.Arithmetic
import Concatenative.Machine.Basic
import Concatenative.Source.Program
import Concatenative.Text.Line
import Concatenative.Word.Agreement
import Concatenative.Word.Template

/-!
# What the built-in words do

`perform` gives the action of each built-in word. Operands are taken from the top of the data stack
downward, and each is checked as soon as it is taken.
-/

namespace Concatenative
namespace Action

variable {σ : Type} {α : Type}

/-- Pop an operand and read it. -/
def popAs (read : Word → Except EvalError α) : Action σ α := do
  ofExcept (read (← pop))

/-- Replace the two numbers on top of the data stack by a word; the top is the left operand. -/
def combine (operation : Int → Int → Except EvalError Word) : Action σ Unit := do
  let left ← popAs Word.operand
  let right ← popAs Word.operand
  push (← ofExcept (operation left right))

/-- The word for the exact result of an integer operation. -/
def wrapped (operation : Int → Int → Int) (left right : Int) : Except EvalError Word :=
  .ok (.int (wrap (operation left right)))

/-- The word for the outcome of a comparison. -/
def compared (comparison : Int → Int → Bool) (left right : Int) : Except EvalError Word :=
  .ok (Word.ofBool (comparison left right))

/-- The word for a quotient. -/
def divided (left right : Int) : Except EvalError Word :=
  match quotient? left right with
  | some quotient => .ok (.int (wrap quotient))
  | none => .error .divideByZero

/-- Split an item off a list; leave the rest and the item. -/
def split (parts : List Word → Option (List Word × Word)) : Action σ Unit := do
  match parts (← popAs Word.asList) with
  | none => fail .emptyList
  | some (rest, item) => do
    push (.list rest)
    push item

/-- A list without its last item, and that item. -/
def lastApart (items : List Word) : Option (List Word × Word) :=
  items.getLast?.map fun item => (items.dropLast, item)

/-- A list without its first item, and that item. -/
def firstApart : List Word → Option (List Word × Word)
  | [] => none
  | item :: rest => some (rest, item)

/-- Push words in turn. -/
def pushEach : List Word → Action σ Unit
  | [] => pure ()
  | word :: rest => do
    push word
    pushEach rest

/-- Show texts in turn. -/
def echoEach (host : Host σ) : List String → Action σ Unit
  | [] => pure ()
  | text :: rest => do
    echo host text
    echoEach host rest

/-- Pop a value for each name. A later value replaces an earlier one of the same name. -/
def bindEach (values : Record Word) : List Word → Action σ (Record Word)
  | [] => pure values
  | name :: rest => do
    let value ← pop
    let name ← ofExcept name.asAtom
    bindEach (values.put name value) rest

/-- The entries written as a name, an equality sign and a value each, given from the end. -/
def entriesFromEnd (entries : Record Word) : List Word → Except EvalError (Record Word)
  | [] => .ok entries
  | value :: .atom mark :: .atom name :: rest =>
    if mark = "=" then entriesFromEnd (entries.put name value) rest else .error .macroFailed
  | _ => .error .macroFailed

/-- Words that write no entries are bad operands, and nothing else is wrong with them. -/
theorem entriesFromEnd_eq_error
    {entries : Record Word}
    {items : List Word}
    {error : EvalError}
    (refused : entriesFromEnd entries items = .error error) :
    error = .macroFailed := by
  fun_induction entriesFromEnd entries items with
  | case1 => cases refused
  | case2 entries value name rest inductionHypothesis => exact inductionHypothesis refused
  | case3 => exact (Except.error.inj refused).symm
  | case4 => exact (Except.error.inj refused).symm

/-- The entries that a list of words writes. Code holds its last line first, so they are read from
the end to keep the order in which they were written. -/
def entriesOf (items : List Word) : Except EvalError (Record Word) :=
  entriesFromEnd [] items.reverse

/-- The words that a text denotes, as a failure of the program if it denotes none. -/
def parseText (text : String) : Action σ (List Word) :=
  match Source.parse text with
  | .ok words => pure words
  | .error (.flawed error) => fail (.badParse error)
  | .error (.oversized digits) => throw (.oversized digits)

/-- Read every operand of a sequence. -/
def readEach (read : Word → Except EvalError α) : List Word → Except EvalError (List α)
  | [] => .ok []
  | word :: rest => do
    let value ← read word
    return value :: (← readEach read rest)

/-- Bind a name to a word. -/
def define (name : String) (word : Word) : Action σ Unit :=
  modify fun machine =>
    let effect := machine.dictionary.effectOfDefinition word
    { machine with dictionary := machine.dictionary.put name (.defined effect word) }

/-- Enter a protected region: remember the state, with code to follow a failure. -/
def enterRegion (handler : List Word) : Action σ Unit :=
  modify fun machine =>
    let snapshot : Snapshot :=
      { dictionary := machine.dictionary
        data := machine.data
        code := handler.reverse ++ machine.code }
    { machine with recovery := snapshot :: machine.recovery }

/-- Leave the innermost protected region, if there is one. -/
def leaveRegion : Action σ Unit :=
  modify fun machine => { machine with recovery := machine.recovery.drop 1 }

/-- The lines that show what a name is bound to. -/
def inspectLines (name : String) : Binding → List String
  | .primitive builtin => [name ++ " " ++ builtin.effect.describe ++ " = <BUILTIN>"]
  | .defined effect word => [name ++ " " ++ effect.describe ++ " =", word.pretty 0]

/-- The action of a built-in word. -/
def perform (host : Host σ) : Builtin → Action σ Unit
  | .length => do
    let items ← popAs Word.asList
    push (.int items.length)
  | .append => do
    let left ← popAs Word.asList
    let right ← popAs Word.asList
    push (.list (left ++ right))
  | .pushBack => do
    let value ← pop
    let items ← popAs Word.asList
    push (.list (items ++ [value]))
  | .popBack => split lastApart
  | .popFront => split firstApart
  | .pushFront => do
    let value ← pop
    let items ← popAs Word.asList
    push (.list (value :: items))
  | .explode => do
    pushEach (← popAs Word.asList)
  | .capture => do
    push (.list (← get).data)
  | .flatten => do
    let separator := (← pop).intoString
    let items := (← pop).intoList
    push (.str (Word.join separator items))
  | .concat => do
    let left := (← pop).intoString
    let right := (← pop).intoString
    push (.str (left ++ right))
  | .lines => do
    let text ← popAs Word.asStr
    push (.list ((Text.splitLines text.toList).map fun line => .str (String.ofList line)))
  | .parse => do
    let text ← popAs Word.asStr
    push (.list (← parseText text))
  | .echo => do
    echo host (← pop).intoString
  | .prompt => do
    match ← prompt host (← pop).intoString with
    | .line text => push (.str text)
    | .endOfInput => do
      halt
      push (.str "")
    | .interrupted => throw .interrupted
  | .command => do
    let name := (← pop).intoString
    let args ← ofExcept (readEach Word.asStr (← pop).intoList)
    push (.str (← command host name args))
  | .load => do
    let path ← popAs Word.asStr
    push (.str (← load host path))
  | .pick => do
    let index ← popAs Word.intoHex
    push (← entry index)
  | .roll => do
    let index ← popAs Word.intoHex
    push (← removeAt index)
  | .drop => do
    let _ ← pop
  | .clear => clearData
  | .hex => do
    push (.hex (← popAs Word.intoHex))
  | .int => do
    push (.int (← popAs Word.intoInt))
  | .add => combine (wrapped (· + ·))
  | .sub => combine (wrapped (· - ·))
  | .mul => combine (wrapped (· * ·))
  | .div => combine divided
  | .neg => do
    push (.int (wrap (-(← popAs Word.asInt))))
  | .equal => do
    let left ← pop
    let right ← pop
    push (Word.ofBool (left.agrees right))
  | .less => combine (compared fun left right => left < right)
  | .greater => combine (compared fun left right => right < left)
  | .dict => do
    let items ← popAs Word.asList
    push (.dict (← ofExcept (entriesOf items)))
  | .get => do
    let entries ← popAs Word.asDict
    let name ← popAs Word.entryName
    match Record.get? entries name with
    | none => fail (.unknown name)
    | some value => push value
  | .put => do
    let entries ← popAs Word.asDict
    let name ← popAs Word.entryName
    let value ← pop
    push (.dict (Record.put name value entries))
  | .keys => do
    let entries ← popAs Word.asDict
    push (.list ((Record.names entries).map Word.str))
  | .bye => halt
  | .assign => do
    let name ← ofExcept (← takeCode).asAtom
    let value ← pop
    define name value
  | .eval => do
    match ← pop with
    | .list items => loadCode items
    | word => push word
  | .expand => do
    let names ← popAs Word.asList
    let template ← pop
    let values ← bindEach [] names
    push (template.expand values)
  | .branch => do
    let test ← popAs Word.asBool
    let consequent ← popAs Word.asList
    let alternative ← popAs Word.asList
    loadCode (if test then consequent else alternative)
  | .protect => do
    let body ← popAs Word.asList
    let handler ← popAs Word.asList
    enterRegion handler
    putCode (.atom Builtin.unprotect.name)
    loadCode body
  | .unprotect => leaveRegion
  | .quote => do
    push (← takeCode)
  | .arrange => do
    let right ← takeCode
    let operation ← takeCode
    let left ← takeCode
    let mark ← takeCode
    if mark = .atom "((" then loadCode [operation, left, right] else fail .macroFailed
  | .debug => do
    echoEach host ((← get).code.map (Word.pretty 0))
  | .inspect => do
    let name ← popAs Word.asAtom
    let binding ← lookup name
    echoEach host (inspectLines name binding)

end Action
end Concatenative
