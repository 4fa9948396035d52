import LineCompiler.Proofs.Compile
import LineCompiler.Proofs.Source.Comment
import LineCompiler.Proofs.Text.Split

/-!
# The arguments of system calls

There are six registers for the arguments of a system call.  The scan refuses a call with more of
them, so that no call in a program has more, and the generation of code never runs out of registers.

The arguments of a call are the fields between the first and the last comma of its line.  A line
that ends with a semicolon gives one node for each of them, a field with a star in front a
dereferenced name (`arity_read`).  On other lines the reader takes the tokens before the last two,
as if there were a semicolon, and the last argument is lost.
-/

namespace LineCompiler

/-! ## From fields to nodes -/

namespace Syscall

open Text Number

/-- The value of an argument without its star. -/
def argumentValue (text : List Char) : Atom :=
  match integer? text with
  | some number => .integer number
  | none =>
      match decimal? text with
      | some number => if text.contains '.' then .float number else .ofChars text
      | none => .ofChars text

/-- The node of the argument in a field. -/
def argumentNode (field : List Char) : Node :=
  match strip field with
  | '*' :: rest => .reference .dereference (.ofName (argumentValue rest))
  | text => .bare (argumentValue text)

private theorem argumentToken_eq (text : List Char) :
    ∃ kind : TokenKind, kind ≠ .dereference ∧
      argumentToken text = .of kind (argumentValue text) := by
  unfold argumentToken argumentValue
  cases integer? text with
  | some number => exact ⟨.number, by decide, rfl⟩
  | none =>
      cases decimal? text with
      | none => exact ⟨.string, by decide, rfl⟩
      | some number =>
          cases hpoint : text.contains '.' with
          | true => exact ⟨.float, by decide, rfl⟩
          | false => exact ⟨.string, by decide, rfl⟩

theorem arguments_argumentToken (starred : Bool) (text : List Char) (rest : List Token) :
    Reader.arguments starred (argumentToken text :: rest) =
      (Reader.arguments false rest).map fun nodes =>
        (if starred then .reference .dereference (.ofName (argumentValue text))
          else .bare (argumentValue text)) :: nodes := by
  obtain ⟨kind, hkind, htoken⟩ := argumentToken_eq text
  rw [htoken]
  simp only [Reader.arguments, Token.entry, bind, Except.bind, if_neg hkind]
  cases Reader.arguments false rest <;> rfl

/-- The tokens of a field are read to its node. -/
theorem arguments_argumentTokens (field : List Char) (rest : List Token) :
    Reader.arguments false (argumentTokens field ++ rest) =
      (Reader.arguments false rest).map (argumentNode field :: ·) := by
  by_cases hstar : ∃ text, strip field = '*' :: text
  · obtain ⟨text, hfield⟩ := hstar
    simp only [argumentTokens, argumentNode, hfield]
    exact arguments_argumentToken true text rest
  · have htokens : argumentTokens field = [argumentToken (strip field)] := by
      unfold argumentTokens
      split
      · rename_i text hfield
        exact absurd ⟨text, hfield⟩ hstar
      · rfl
    have hnode : argumentNode field = .bare (argumentValue (strip field)) := by
      unfold argumentNode
      split
      · rename_i text hfield
        exact absurd ⟨text, hfield⟩ hstar
      · rfl
    rw [htokens, hnode]
    exact arguments_argumentToken false (strip field) rest

private theorem arguments_flatMap (fields : List (List Char)) :
    Reader.arguments false (fields.flatMap argumentTokens) = .ok (fields.map argumentNode) := by
  induction fields with
  | nil => rfl
  | cons field fields ih =>
      rw [List.flatMap_cons, arguments_argumentTokens, ih]
      rfl

/-- A text that ends with a semicolon ends with the token of one. -/
theorem errorTokens_of_semicolon {text : List Char} {tokens : List Token}
    (htext : [';', '\n'] <:+ text)
    (htokens : errorTokens ((splitOn ',' text).getLastD []) = .ok tokens) :
    ∃ error, tokens = [.of .identifier error, .symbol .semicolon] := by
  obtain ⟨front, rfl⟩ := htext
  have hcomma : ',' ∉ [';', '\n'] := by decide
  obtain ⟨last, hlast⟩ := getLastD_splitOn_append hcomma front
  have hstrip : strip (last ++ [';', '\n']) = strip (last ++ [';']) := by
    rw [List.append_cons, strip, trim_append_singleton_of (by decide)]
    rfl
  have hend : (strip (last ++ [';'])).getLast? = some ';' :=
    getLast?_trim_append_singleton (by decide)
  rw [hlast] at htokens
  simp only [errorTokens, hstrip, hend, if_true] at htokens
  cases htokens
  exact ⟨_, rfl⟩

/-- A call that ends with a semicolon has one argument for each field. -/
theorem syscall_of_semicolon {line : Atom} {text : List Char} {elements : List Token}
    (helements : Syscall.elements line text = .ok elements)
    (htext : [';', '\n'] <:+ Source.stripComment text) :
    ∃ number error, Reader.syscall (.keyword .syscall :: elements) =
      .ok (.syscall number (.list ((argumentFields text).map argumentNode)) error) := by
  obtain ⟨number, tokens, hnumber, -, herror, rfl⟩ := elements_eq_ok helements
  obtain ⟨error, rfl⟩ := errorTokens_of_semicolon htext herror
  cases number with
  | blank => exact absurd hnumber (by decide)
  | of kind value =>
      exact ⟨_, _, Reader.syscall_append (arguments_flatMap (argumentFields text))⟩

end Syscall

/-! ## From lines to nodes -/

/-- A statement that ends the text of its line with a semicolon ends its own text with it. -/
theorem Scan.SpelledBy.suffix_of_semicolon {opener : Opener} {front rest : List Char}
    (hfront : Scan.SpelledBy opener front)
    (hline : [';', '\n'] <:+ Source.stripComment (front ++ rest)) :
    [';', '\n'] <:+ Source.stripComment rest := by
  obtain ⟨text, htext⟩ : ∃ text, Source.stripComment rest = text ++ ['\n'] := ⟨_, rfl⟩
  rw [hfront.stripComment_append, htext] at hline
  rw [htext]
  have hends : (front ++ text).getLast? = some ';' := by
    obtain ⟨others, hothers⟩ := hline
    rw [List.append_cons, ← List.append_assoc] at hothers
    rw [← List.append_cancel_right hothers, List.getLast?_concat]
  rw [List.getLast?_append] at hends
  cases hlast : text.getLast? with
  | none =>
      -- Without a text behind the word, the line would end with a letter.
      rw [hlast, Option.none_or, hfront.last] at hends
      exact absurd hends (by cases opener <;> decide)
  | some last =>
      rw [hlast] at hends
      cases hends
      obtain ⟨others, rfl⟩ := List.getLast?_eq_some_iff.mp hlast
      exact ⟨others, by rw [List.append_assoc]; rfl⟩

private theorem Scan.SpelledBy.argumentFields_append {front : List Char}
    (hfront : Scan.SpelledBy .syscall front) (rest : List Char) :
    Syscall.argumentFields (front ++ rest) = Syscall.argumentFields rest := by
  have hcomma : ',' ∉ front := by
    intro hmem
    exact absurd (hfront.mem hmem) (by decide)
  rw [Syscall.argumentFields, hfront.stripComment_append, Text.drop_one_splitOn_append hcomma]
  rfl

namespace Reader

variable {names : Names} {source : List String} {line : TokenLine}

/-- The call on a line that ends with a semicolon has one argument for each field. -/
theorem syscall_of_line (hline : line ∈ (lex names source).lines)
    (hopener : line.opener? = some .syscall)
    (hend : [';', '\n'] <:+ Source.stripComment line.line.content.toList) :
    ∃ number error, syscall line.tokens = .ok (.syscall number
      (.list ((Syscall.argumentFields line.line.content.toList).map Syscall.argumentNode))
        error) := by
  obtain ⟨front, rest, elements, hcontent, hfront, helements, htokens⟩ :=
    statement_of_opener? hline hopener
  rw [hcontent] at hend ⊢
  rw [htokens, hfront.argumentFields_append]
  exact Syscall.syscall_of_semicolon helements (hfront.suffix_of_semicolon hend)

/-- No call that is read from a scanned line has more arguments than there are registers. -/
theorem length_le_of_effect (hsound : Scan.Sound line.line line.tokens)
    {number arguments error : Node}
    (heffect : Reader.effect line = .ok (.statement (.syscall number arguments error))) :
    ∃ nodes, arguments = .list nodes ∧ nodes.length ≤ Syscall.maxArguments := by
  obtain ⟨opener, hopener⟩ := opener?_of_effect heffect rfl
  rw [effect_of_opener? hopener] at heffect
  have hsort : Opener.syscall.sort = opener.sort := (statement_of_openerEffect heffect).1
  cases opener with
  | syscall =>
      obtain ⟨rest, elements, helements, htokens⟩ := elements_of_opener? hsound hopener
      obtain ⟨_, nodes, _, hsyscall, hlength, -⟩ := syscall_of_elements helements
      rw [openerEffect, htokens, Opener.keyword, hsyscall] at heffect
      cases heffect
      exact ⟨nodes, rfl, hlength⟩
  | const | var | ptr | cond => exact absurd hsort (by decide)

end Reader

/-! ## Registers -/

namespace Emission

variable {fault : Fault}

theorem fault_andThen_ne {first : Emission} {second : Draws → Emission}
    (hfirst : first.fault ≠ some fault) (hsecond : ∀ draws, (second draws).fault ≠ some fault) :
    (first.andThen second).fault ≠ some fault := by
  unfold andThen
  split
  · exact hfirst
  · exact hsecond first.draws

theorem fault_ofExcept_ne {writes : Except Fault (List Write)} (hwrites : writes ≠ .error fault)
    (draws : Draws) : (ofExcept draws writes).fault ≠ some fault := by
  intro hfault
  cases writes with
  | ok writes => cases hfault
  | error other =>
      cases hfault
      exact hwrites rfl

end Emission

namespace Generate

open Emission (fault_andThen_ne fault_ofExcept_ne ofExcept_fault)

private theorem compareCode_ne_missingItem (condition : Node) :
    compareCode condition ≠ .error .missingItem := by
  have hlacks : ∀ (node : Node) (field : String), node.lacks field ≠ .missingItem := by
    intro node field
    unfold Node.lacks
    split <;> simp
  have hleft : condition.left ≠ .error .missingItem := by
    unfold Node.left
    split <;> simp [hlacks]
  have hright : condition.right ≠ .error .missingItem := by
    unfold Node.right
    split <;> simp [hlacks]
  have hvalue : ∀ node : Node, node.value ≠ .error .missingItem := by
    intro node
    unfold Node.value
    split <;> try split
    all_goals simp [hlacks]
  have hname : ∀ node : Node, node.name ≠ .error .missingItem := by
    intro node
    unfold Node.name
    split <;> simp [hlacks]
  -- Only fields that are missing make a comparison fail.
  refine bind_ne_error hleft fun left => bind_ne_error hright fun right => ?_
  split
  · simp [pure, Except.pure]
  · simp [pure, Except.pure]
  · exact bind_ne_error (hvalue _) fun _ => bind_ne_error (hname _) fun _ => by
      simp [pure, Except.pure]

private theorem statement_fault_ne {node : Node}
    (hformed : node.Formed Generates fun test => test.comparedBy.isOk = true) (names : Names)
    (label : String) (draws : Draws) :
    (statement names label draws node).fault ≠ some .missingItem := by
  cases hformed with
  | plain hnode => rw [hnode names label draws]; exact nofun
  | absent => exact nofun
  | @conditional test thenBlock elseBlock htest hthen helse =>
      rw [statement]
      refine fault_andThen_ne (fault_ofExcept_ne ?_ _) fun draws =>
        fault_andThen_ne (fault_andThen_ne ?_ ?_) ?_
      · exact map_ne_error (compareCode_ne_missingItem test)
      · rw [block, blockItems_fault hthen]
        exact nofun
      · intro draws
        rw [block, blockItems_fault helse]
        exact nofun
      · intro draws
        rw [(ofExcept_fault draws _).mpr (by rwa [jumps, Reader.isOk_map])]
        exact nofun

private theorem program_fault_ne {statements : List Node}
    (hformed : ∀ node ∈ statements, node.Formed Generates fun test => test.comparedBy.isOk = true)
    (names : Names) (draws : Draws) :
    (program draws { statements, names }).fault ≠ some .missingItem := by
  refine fault_andThen_ne (by exact nofun) fun draws => ?_
  show (Generate.statements names draws statements).fault ≠ _
  induction statements generalizing draws with
  | nil => exact nofun
  | cons node nodes ih =>
      have hnode := hformed node (List.mem_cons_self ..)
      refine fault_andThen_ne (statement_fault_ne hnode names mainLabel draws) ?_
      exact ih fun other hother => hformed other (List.mem_cons_of_mem _ hother)

end Generate

/-- **The arity of system calls.**  For every source whose lines are read: no call in the program,
inside or outside a block, has more than six arguments, so the generation of code never runs out of
registers; and the call on a line that ends with a semicolon has one argument for each field between
the first and the last one. -/
theorem arity_read {names : Names} {source : List String} {statements : List Node}
    (hread : Reader.read (lex names source).lines = .ok statements) :
    (∀ number arguments error, .syscall number arguments error ∈ Node.preorderAll statements →
        ∃ nodes, arguments = .list nodes ∧ nodes.length ≤ 6) ∧
      (∀ draws names, (Generate.program draws { statements, names }).fault ≠ some .missingItem) ∧
      ∀ line ∈ (lex names source).lines, line.opener? = some .syscall →
        [';', '\n'] <:+ Source.stripComment line.line.content.toList →
        ∃ number error, Reader.syscall line.tokens = .ok (.syscall number
          (.list ((Syscall.argumentFields line.line.content.toList).map Syscall.argumentNode))
          error) := by
  have hsound : ∀ line ∈ (lex names source).lines, Scan.Sound line.line line.tokens :=
    fun line hline => Lexed.sound_of_mem hline
  refine ⟨?_, ?_, fun line hline => Reader.syscall_of_line hline⟩
  · intro number arguments error hmem
    obtain ⟨position, -, line, hline, heffect⟩ :=
      (statement_mem_iff hread (by simp [Node.absent]) (by simp [Node.sort, Opener.sort])).mp hmem
    exact Reader.length_le_of_effect (hsound line (mem_of_position hline)) heffect
  · intro draws names
    exact Generate.program_fault_ne (formed_of_sound hsound hread) names draws

/-- A call with as many arguments as there are registers. -/
def callLine : String :=
  "syscall 9, 0, *a, b, 4, *c, d, e; // six, one for each register\n"

/-- A source with a call in a block. -/
def callInBlock : List String :=
  ["if (x == 1) \x7b\n", callLine, "\x7d else \x7b\n", "\x7d\n"]

/-- The arguments of `callLine`. -/
def callArguments : List Node :=
  [.bare (.integer 0), .reference .dereference (.ofName (.text "a")), .bare (.text "b"),
    .bare (.integer 4), .reference .dereference (.ofName (.text "c")), .bare (.text "d")]

/-- The statement of `callInBlock`. -/
def callConditional : Node :=
  .ifElse (.compare (.ofName (.text "x")) (.ofLiteral .number (.text "1")) (.relation .equal))
    (.list [.syscall (.bare (.integer 9)) (.list callArguments) (.ofName (.text "e"))]) (.list [])

theorem arity_read_callInBlock :
    Reader.read (lex {} callInBlock).lines = .ok [callConditional] ∧
      (∃ nodes, Node.list callArguments = .list nodes ∧ nodes.length ≤ 6) ∧
      (∀ draws names, (Generate.program draws { statements := [callConditional], names }).fault ≠
        some .missingItem) ∧
      ∃ line ∈ (lex {} callInBlock).lines, line.opener? = some .syscall ∧
        [';', '\n'] <:+ Source.stripComment line.line.content.toList ∧
        ∃ number error, Reader.syscall line.tokens =
          .ok (.syscall number (.list callArguments) error) := by
  have hread : Reader.read (lex {} callInBlock).lines = .ok [callConditional] := rfl
  obtain ⟨hlength, hfault, hfields⟩ := arity_read hread
  refine ⟨hread, hlength (.bare (.integer 9)) (.list callArguments)
    (.ofName (.text "e")) ?_, hfault, ?_⟩
  · simp [callConditional, Node.preorderAll, Node.preorder]
  · have hend : [';', '\n'] <:+ Source.stripComment callLine.toList := by decide
    have hline : (lex {} callInBlock).lines[1] ∈ (lex {} callInBlock).lines := List.getElem_mem _
    exact ⟨_, hline, rfl, hend, hfields _ hline rfl hend⟩

end LineCompiler
