import LineCompiler.Program.Node

/-!
# Outlines

An outline lists the sort of a node with its fields in order.  It has a one-line display, in which a
sequence stands in brackets and a sort has its fields in parentheses behind it.  Displayed nodes
leave out some fields that a full outline has: a constant its line, and every line number becomes a
line of its own.
-/

namespace LineCompiler

/-- A value by its parts; a record has as many labels as values. -/
inductive Outline where
  | atom (value : Atom)
  | list (items : List Outline)
  | record (sort : String) (labels : List String) (values : List Outline)
  | table (labels : List String) (values : List Outline)
  /-- A sort itself, and not a value of it, with the text that displays it. -/
  | sort (name shown : String)

namespace Outline

mutual

/-- The one-line text of an outline. -/
def display : Outline → String
  | .atom value => value.display
  | .list items => "[" ++ ", ".intercalate (displays items) ++ "]"
  | .record name labels values =>
      let fields := List.zipWith (fun label value => label ++ "=" ++ value) labels (displays values)
      name ++ "(" ++ ", ".intercalate fields ++ ")"
  | .table labels values =>
      let entries :=
        List.zipWith (fun label value => Text.quoted label ++ ": " ++ value) labels
          (displays values)
      "\x7b" ++ ", ".intercalate entries ++ "\x7d"
  | .sort _ shown => shown

/-- The one-line texts of several outlines. -/
def displays : List Outline → List String
  | [] => []
  | item :: rest => item.display :: displays rest

end

mutual

/-- Whether an outline has a text: an integer in it that is too long has none. -/
def hasText : Outline → Bool
  | .atom (.integer value) => (Number.integerText? value).isSome
  | .atom _ | .sort _ _ => true
  | .list items => allHaveText items
  | .record _ _ values => allHaveText values
  | .table _ values => allHaveText values

/-- Whether all outlines have a text. -/
def allHaveText : List Outline → Bool
  | [] => true
  | item :: rest => item.hasText && allHaveText rest

end

/-- A text as an outline. -/
def text (content : String) : Outline :=
  .atom (.text content)

end Outline

/-- How much of a node an outline tells. -/
inductive OutlineStyle where
  /-- Every field. -/
  | full
  /-- What the display of a node shows. -/
  | display
  deriving DecidableEq

/-- The outline of a line. -/
def lineOutline (number content : Outline) : Outline :=
  .record "LineModel" ["line_number", "content"] [number, content]

/-- The outline of the line that a declaration stands on. -/
def lineField (style : OutlineStyle) (line : Atom) : Outline :=
  match style with
  | .full => .atom line
  | .display => lineOutline (.atom line) (.text "")

namespace Node

mutual

/-- The outline of a node. -/
def outline (style : OutlineStyle) : Node → Outline
  | .bare value => .atom value
  | .list nodes => .list (outlines style nodes)
  | .table labels values => .table labels (outlines style values)
  | .sortItself name shown => .sort name shown
  | .blank name => .record name [] []
  | .type name bits => .record name.sort ["bits"] [outline style bits]
  | .union members => .record "MultiType" ["type_list"] [outline style members]
  | .identifier name => .record "Identifier" ["name"] [outline style name]
  | .literal kind value held =>
      .record kind.sort ["value", "typ"] [outline style value, outline style held]
  | .fixed kind value => .record kind.sort ["value"] [outline style value]
  | .extent kind bits => .record kind.sort ["bits"] [outline style bits]
  | .address value => .record "MemoryAddress" ["value"] [outline style value]
  | .reference role target => .record role.sort ["identifier"] [outline style target]
  | .relation compared => .record compared.sort [] []
  | .compare left right symbol =>
      .record "Compare" ["left", "right", "symbol"]
        [outline style left, outline style right, outline style symbol]
  | .constant subject size held value line =>
      let fields :=
        [outline style subject, outline style size, outline style held, outline style value]
      match style with
      | .full =>
          .record "Constant" ["identifier", "size", "typ", "value", "line"]
            (fields ++ [lineField style line])
      | .display => .record "Constant" ["identifier", "size", "typ", "value"] fields
  | .variable subject size held value line =>
      .record "Variable" ["identifier", "size", "typ", "value", "line"]
        [outline style subject, outline style size, outline style held, outline style value,
          lineField style line]
  | .pointer subject held value line =>
      .record "Pointer" ["identifier", "typ", "value", "line"]
        [outline style subject, outline style held, outline style value, lineField style line]
  | .arithmetic operation left right result =>
      .record operation.sort ["left", "right", "assign"]
        [outline style left, outline style right, outline style result]
  | .syscall number arguments error =>
      .record "Syscall" ["syscall_number", "args", "error"]
        [outline style number, outline style arguments, outline style error]
  | .ifElse condition thenBlock elseBlock =>
      .record "IfElse" ["condition", "if_block_statements", "else_block_statements"]
        [outline style condition, outline style thenBlock, outline style elseBlock]
  | .giveBack value => .record "Return" ["value"] [outline style value]
  | .argumentValue subject value register =>
      .record "ArgumentValue" ["identifier", "value", "reg_label"]
        [outline style subject, outline style value, outline style register]
  | .argument subject held default register =>
      .record "Argument" ["identifier", "typ", "default_value", "reg_label"]
        [outline style subject, outline style held, outline style default,
          outline style register]
  | .argumentList items => .record "Arguments" ["args_list"] [outline style items]
  | .callArguments items => .record "CallArguments" ["name"] [outline style items]
  | .function subject arguments body returnType code isSyscall =>
      .record "Function"
        ["identifier", "arguments", "asm_code", "statements", "return_type", "is_syscall"]
        [outline style subject, outline style arguments, outline style code,
          outline style body, outline style returnType, outline style isSyscall]
  | .call subject arguments =>
      .record "CallFunction" ["identifier", "args_list"]
        [outline style subject, outline style arguments]
  | .program statements => .record "Program" ["statements"] [outline style statements]
  | .sourceLine number content => lineOutline (outline style number) (outline style content)

/-- The outlines of several nodes. -/
def outlines (style : OutlineStyle) : List Node → List Outline
  | [] => []
  | node :: rest => outline style node :: outlines style rest

end

/-- The one-line text of a node inside a larger one. -/
def display (node : Node) : String :=
  (node.outline .display).display

/-- The text of a node in a message or in assembly code: a bare value as it is, any other node by
its display. -/
def plain : Node → String
  | .bare value => value.plain
  | node => node.display

end Node

end LineCompiler
