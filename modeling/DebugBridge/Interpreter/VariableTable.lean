import DebugBridge.Interpreter.Engine

/-!
# A table of variables as an engine

The simplest interpreter: one table of variables for all scopes, and expressions that name a
variable or write a value down. Two switches make it fail.

## Main definitions

* `VariableTable`: the state of the engine, with its variables in the order of their names;
* `VariableTable.evaluate`: the expressions it understands.
-/

namespace DebugBridge

-- The powers of core, whatever algebra is in scope.
attribute [local instance (high)] instPowNat

/-- The state of the engine. -/
structure VariableTable where
  /-- The variables, in the order of their names. -/
  entries : List (String × Datum)
  /-- Whether the variables can not be listed. -/
  variablesFail : Bool
  /-- Whether the execution can not be ended. -/
  terminateFails : Bool
  stopped : Bool
deriving DecidableEq

namespace VariableTable

instance : Inhabited VariableTable := ⟨⟨[], false, false, false⟩⟩

/-- Puts an entry at its place in the order of the names. -/
def insertEntry (name : String) (content : Datum) :
    List (String × Datum) → List (String × Datum)
  | [] => [(name, content)]
  | e :: rest =>
    if e.1 = name then (name, content) :: rest
    else if name < e.1 then (name, content) :: e :: rest
    else e :: insertEntry name content rest

/-- Binds a variable. -/
def bind (t : VariableTable) (name : String) (content : Datum) : VariableTable :=
  { t with entries := insertEntry name content t.entries }

/-- The variables of a scope: where it stands, and then all variables of the table. -/
def visible (t : VariableTable) (scope : Scope) : Except Causes (List Report) :=
  if t.variablesFail then .error ["variables unavailable", "scope is gone"]
  else
    let place := scope.activation.name ++ ":" ++ toString scope.line
    .ok (⟨"@at", .null, some place⟩ :: t.entries.map fun (name, content) => ⟨name, content, none⟩)

/-- What follows a word at the front of a text. -/
def after? (word text : List Char) : Option (List Char) :=
  match word, text with
  | [], rest => some rest
  | c :: word, d :: text => if c = d then after? word text else none
  | _ :: _, [] => none

/-- Splits a text at the first colon with a space after it. -/
def splitMessage : List Char → List Char × Option (List Char)
  | [] => ([], none)
  | c :: rest =>
    match c, rest with
    | ':', ' ' :: message => ([], some message)
    | _, _ =>
      let (kind, message) := splitMessage rest
      (c :: kind, message)

/-- The failure that a text after `throw` describes. -/
def thrown (text : List Char) : EvalFailure :=
  let (kind, message) := splitMessage text
  ⟨String.ofList kind, message.map String.ofList⟩

/-- The text between double quotes. -/
def unquoted? (text : List Char) : Option (List Char) :=
  match text with
  | '"' :: rest => if rest.getLast? = some '"' then some rest.dropLast else none
  | _ => none

/-- A whole number as content, of the width that scripts use. -/
def number (z : Int) : Option Draft :=
  (Whole.ofInt? .int z).map fun n => .settled (.scalar (.whole n))

/-- The value of an expression: a failure to throw, a variable, a text in quotes, `null`, the line
or the name of the scope, or a whole number. -/
def evaluate (t : VariableTable) (scope : Scope) (expression : String) :
    Except EvalFailure Draft :=
  let undefined : EvalFailure := ⟨"ReferenceError", some (expression ++ " is not defined")⟩
  match after? "throw ".toList expression.toList with
  | some text => .error (thrown text)
  | none =>
    match t.entries.lookup expression with
    | some content => .ok (.settled content)
    | none =>
      match unquoted? expression.toList with
      | some text => .ok (.text (String.ofList text))
      | none =>
        if expression = "null" then .ok (.settled .null)
        else if expression = "@name" then .ok (.text scope.activation.name)
        else
          let value :=
            if expression = "@line" then some (Int.bmod scope.line (2 ^ (32 : Nat)))
            else Number.integer? expression.toList
          match value.bind number with
          | some draft => .ok draft
          | none => .error undefined

/-- Whether a variable can only be read. -/
def isConstant (name : String) : Bool :=
  (after? "const".toList name.toList).isSome

/-- Gives a variable of the table a new value. -/
def assign (t : VariableTable) (name : String) (content : Datum) :
    Except Causes Unit × VariableTable :=
  if isConstant name then (.error ["constant", "declared read only"], t)
  else if (t.entries.lookup name).isNone then (.error ["unknown variable " ++ name], t)
  else (.ok (), t.bind name content)

/-- Ends the execution. -/
def terminate (t : VariableTable) : Except Causes Unit × VariableTable :=
  if t.terminateFails then (.error ["engine is stuck"], t)
  else (.ok (), { t with stopped := true })

instance : Engine VariableTable where
  visible t scope := (t.visible scope, t)
  evaluate t scope expression := (t.evaluate scope expression, t)
  assign t _ name content := t.assign name content
  terminate t := t.terminate
  isStopped t := t.stopped
  bind t name content := t.bind name content

end VariableTable

end DebugBridge
