import Hyperscript.Script.Basic

/-!
The lines of a script.

A line is a piece of code and the indentation at which it stands. Only an indented script shows the
indentation, so both forms of a script have the same lines.
-/

namespace Hyperscript

/-- A line of code; one that is spliced in may itself hold line feeds. -/
structure Line where
  indent : Int
  code : String
  deriving DecidableEq, Repr

namespace Line

/-- The text of a line. -/
def render (pretty : Bool) (line : Line) : String :=
  (if pretty then String.ofList (List.replicate line.indent.toNat ' ') else "") ++ line.code ++ "\n"

/-- The text of several lines. -/
def renderAll (pretty : Bool) (lines : List Line) : String :=
  String.join (lines.map (render pretty))

theorem renderAll_append (pretty : Bool) (xs ys : List Line) :
    renderAll pretty (xs ++ ys) = renderAll pretty xs ++ renderAll pretty ys := by
  simp [renderAll, String.join_append]

end Line

namespace ArrayName

def text : ArrayName → String
  | fresh index => "n" ++ toString index ++ "Child"
  | named name => name

end ArrayName

namespace Code

/-- The line that opens a block. -/
def opening (header : String) : String := header ++ " \x7b"

/-- The line that closes a block and opens the next one. -/
def reopening (header : String) : String := "\x7d " ++ header ++ " \x7b"

def closing : String := "\x7d"

def declare (array : String) : String := "var " ++ array ++ " = [];"

def push (array value : String) : String := array ++ ".push(" ++ value ++ ");"

def pushAll (array values : String) : String :=
  array ++ ".push.apply(" ++ array ++ ", " ++ values ++ ");"

def result (value : String) : String := "return " ++ value ++ ";"

/-- The call that makes an element. -/
def element (arguments : List String) : String :=
  "h(" ++ ", ".intercalate arguments ++ ")"

/-- The entry of a call's context that holds attributes. -/
def attributesField (properties : String) : String := "attributes: " ++ properties

/-- Further arguments of a call, if there are any. -/
def furtherArguments (args : String) : String :=
  if args.isEmpty then "" else ", " ++ args

/-- The start of the statement that pushes what a mixin returns, up to the context of the call. -/
def callHead (array mixin : String) : String :=
  array ++ ".push.apply(" ++ array ++ ", " ++ Mixin.reference mixin ++ ".call("

end Code

/-- The expression that a push adds. -/
def Value.expr : Value → String
  | text t => t.code
  | code expr => "(" ++ expr ++ ")"
  | leaf tag none => Code.element [tag]
  | leaf tag (some properties) => Code.element [tag, properties]

/-- The label of a clause. -/
def Clause.labelCode : Option String → String
  | none => "default:"
  | some label => "case " ++ label ++ ":"

/-- The lines of a function that fills an array and returns it. -/
def functionLines (indent : Int) (definitions : List Line) (array : ArrayName) (body : List Line) :
    List Line :=
  definitions ++ ⟨indent, Code.declare array.text⟩ :: body ++ [⟨indent, Code.result array.text⟩]

/-- The lines of a loop of an `each`. -/
def eachLines (indent : Int) (header : String) (first : List String) (body rest : List Line) :
    List Line :=
  ⟨indent, Code.opening header⟩ :: first.map (⟨indent + 2, ·⟩) ++ body ++
    ⟨indent, Code.closing⟩ :: rest

mutual

/-- The lines of a statement. -/
def Stmt.lines (indent : Int) : Stmt → List Line
  | .push target value => [⟨indent, Code.push target.text value.expr⟩]
  | .element target array tag properties body =>
    ⟨indent, Code.declare array.text⟩ :: Stmt.linesAll (indent + 2) body ++
      [⟨indent, Code.push target.text
        (Code.element [tag, properties.getD "\x7b\x7d", array.text])⟩]
  | .splice code => (Text.codeLines code).map (⟨indent, ·⟩)
  | .codeBlock header body =>
    (Text.codeLines (Code.opening header)).map (⟨indent, ·⟩) ++
      Stmt.linesAll (indent + 2) body ++ [⟨indent, Code.closing⟩]
  | .cond test body otherwise =>
    ⟨indent, Code.opening ("if (" ++ test ++ ")")⟩ :: Stmt.linesAll (indent + 2) body ++
      otherwise.lines indent
  | .switch subject clauses =>
    ⟨indent, Code.opening ("switch (" ++ subject ++ ")")⟩ :: Clause.linesAll (indent + 2) clauses ++
      [⟨indent, Code.closing⟩]
  | .each source item key definitions arrayBody arrayRest objectBody objectRest =>
    let bind := "var " ++ item ++ " = $$obj[" ++ key ++ "];"
    [⟨indent, ";(function()\x7b"⟩, ⟨indent + 2, "var $$obj = " ++ source ++ ";"⟩] ++
      Stmt.linesAll (indent + 2) definitions ++
      ⟨indent + 2, Code.opening "if ('number' == typeof $$obj.length)"⟩ ::
      eachLines (indent + 4)
        ("for (var " ++ key ++ " = 0, $$l = $$obj.length; " ++ key ++ " < $$l; " ++ key ++ "++)")
        [bind] (Stmt.linesAll (indent + 6) arrayBody) (Stmt.linesAll (indent + 4) arrayRest) ++
      [⟨indent + 2, Code.reopening "else"⟩, ⟨indent + 4, "var $$l = 0;"⟩] ++
      eachLines (indent + 4) ("for (var " ++ key ++ " in $$obj)")
        ["$$l++;", bind] (Stmt.linesAll (indent + 6) objectBody)
        (Stmt.linesAll (indent + 4) objectRest) ++
      [⟨indent + 2, Code.closing⟩, ⟨indent, "\x7d).call(this);"⟩]
  | .loop test body =>
    ⟨indent, Code.opening ("while (" ++ test ++ ")")⟩ :: Stmt.linesAll (indent + 2) body ++
      [⟨indent, Code.closing⟩]
  | .define mixin params rest definitions array body =>
    let restLine := match rest with
      | none => []
      | some (name, position) =>
        [⟨indent + 2, "var " ++ name ++ " = Array.prototype.slice.call(arguments, " ++
          toString position ++ ");"⟩]
    [⟨indent, Mixin.reference mixin ++ " = function(" ++ params ++ ") \x7b"⟩,
      ⟨indent + 2, "var block = (this && this.block), " ++
        "attributes = (this && this.attributes) || \x7b\x7d;"⟩] ++
      restLine ++
      functionLines (indent + 2) (Stmt.linesAll (indent + 2) definitions) array
        (Stmt.linesAll (indent + 2) body) ++
      [⟨indent, "\x7d;"⟩]
  | .call target mixin properties args =>
    let context := match properties with
      | none => "this"
      | some properties => "\x7b" ++ Code.attributesField properties ++ "\x7d"
    [⟨indent, Code.callHead target.text mixin ++ context ++ Code.furtherArguments args ++ "));"⟩]
  | .callWith target mixin properties args definitions array body =>
    let field := match properties with
      | none => ""
      | some properties => ", " ++ Code.attributesField properties
    ⟨indent, Code.callHead target.text mixin ++ "\x7bblock: function() \x7b"⟩ ::
      functionLines (indent + 2) (Stmt.linesAll (indent + 2) definitions) array
        (Stmt.linesAll (indent + 2) body) ++
      [⟨indent, "\x7d" ++ field ++ "\x7d" ++ Code.furtherArguments args ++ "));"⟩]
  | .insertBlock target =>
    [⟨indent, Code.opening "if (block)"⟩,
      ⟨indent + 2, Code.pushAll target.text "block.call(this)"⟩,
      ⟨indent, Code.closing⟩]

def Stmt.linesAll (indent : Int) : List Stmt → List Line
  | [] => []
  | s :: rest => s.lines indent ++ Stmt.linesAll indent rest

/-- The lines after the first body of a conditional, with the brace that closes it. -/
def Otherwise.lines (indent : Int) : Otherwise → List Line
  | .done => [⟨indent, Code.closing⟩]
  | .body body =>
    ⟨indent, Code.reopening "else"⟩ :: Stmt.linesAll (indent + 2) body ++ [⟨indent, Code.closing⟩]
  | .elseIf test body otherwise =>
    ⟨indent, Code.reopening ("else if (" ++ test ++ ")")⟩ :: Stmt.linesAll (indent + 2) body ++
      otherwise.lines indent

def Clause.lines (indent : Int) : Clause → List Line
  | .fallThrough label => [⟨indent, Clause.labelCode label⟩]
  | .body label body =>
    ⟨indent, Clause.labelCode label⟩ :: Stmt.linesAll (indent + 2) body ++ [⟨indent + 2, "break;"⟩]

def Clause.linesAll (indent : Int) : List Clause → List Line
  | [] => []
  | c :: rest => c.lines indent ++ Clause.linesAll indent rest

end

theorem Stmt.linesAll_append (indent : Int) (xs ys : List Stmt) :
    Stmt.linesAll indent (xs ++ ys) = Stmt.linesAll indent xs ++ Stmt.linesAll indent ys := by
  induction xs with
  | nil => rfl
  | cons x xs ih => rw [List.cons_append, Stmt.linesAll, Stmt.linesAll, ih, List.append_assoc]

namespace Program

/-- The names a script needs at run time, with the modules that define them. -/
def bindings : List (String × String) := [("h", "virtual-dom/h")]

/-- The code that binds them. -/
def bindingCode : String :=
  "\n".intercalate (bindings.map fun (name, source) =>
    "var " ++ name ++ " = require(" ++ Text.literal source ++ ");")

/-- The lines of a script. -/
def lines (indent : Int) (p : Program) : List Line :=
  (if p.runtime then (Text.codeLines bindingCode).map (⟨indent, ·⟩) else []) ++
    ⟨indent, "var " ++ Mixin.table ++ " = \x7b\x7d;"⟩ ::
    Stmt.linesAll indent p.definitions ++
    ⟨indent, Code.declare p.root.text⟩ :: Stmt.linesAll indent p.body ++
    [⟨indent, Code.result (p.root.text ++ "[0]")⟩]

end Program

end Hyperscript
