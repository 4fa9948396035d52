import LineCompiler.Proofs.Compile
import LineCompiler.Proofs.Token.Names

/-!
# Declarations and their names

A program has nodes for its declarations, and lists of the names they declare.  Code is generated
from both: a constant is stored under the name in its node, and an argument of a system call stands
for the contents of a constant if its name is in the list.

The reader takes what stands behind the word of a declaration for its name.  The scan lists a name
only if the declaration is written with the name in front.  In `const = a; : int = 5;` a value
stands there, and the constant `a` is not listed (`not_listed_valueFirst`).  So the nodes and the
lists agree exactly if every declaration in the program has the name of one that is written with its
name in front (`listed_read_iff`).
-/

namespace LineCompiler

/-- The kind of the name that a node declares, and the name itself. -/
def Node.declared? : Node → Option (TokenKind × Node)
  | .constant name _ _ _ _ => some (.constantName, name)
  | .variable name _ _ _ _ => some (.variableName, name)
  | .pointer name _ _ _ => some (.pointerName, name)
  | _ => none

/-- Whether the name that a node declares, if it does, is among the names of its kind. -/
def Node.Listed (names : Names) (node : Node) : Prop :=
  ∀ kind identifier, node.declared? = some (kind, identifier) →
    ∃ name ∈ names.ofKind kind, identifier = .ofName (.text name)

namespace TokenLine

/-- The value of the token behind the first one: the name of a declaration, as it is read. -/
def name? (line : TokenLine) : Option Atom :=
  match line.tokens[1]? with
  | some (Token.of _ value) => some value
  | _ => none

/-- Whether the declaration on a line is written with its name in front. -/
def namesFirst (line : TokenLine) : Bool :=
  Declaration.namesFirst (Source.stripComment line.line.content.toList)

end TokenLine

/-! ## The names that lines declare -/

/-- The text up to a statement word has no part in a declaration. -/
theorem Scan.SpelledBy.namesFirst_append {opener : Opener} {front : List Char}
    (hfront : Scan.SpelledBy opener front) (rest : List Char) :
    Declaration.namesFirst (front ++ rest) = Declaration.namesFirst rest := by
  have hnames : ∀ c ∈ front, Declaration.isNameChar c = true := by
    intro c hc
    rcases hfront.mem hc with rfl | rfl | hspelled
    · rfl
    · rfl
    · have hspelling : opener.spelling.all Declaration.isNameChar = true := by cases opener <;> rfl
      exact List.all_eq_true.mp hspelling c hspelled
  clear hfront
  induction front with
  | nil => rfl
  | cons c others ih =>
      have hc := hnames c (List.mem_cons_self ..)
      simp only [Declaration.isNameChar, Bool.and_eq_true, decide_eq_true_eq, ne_eq] at hc
      obtain ⟨⟨⟨hcolon, hbracket⟩, -⟩, hequals⟩ := hc
      rw [List.cons_append, Declaration.namesFirst, if_neg (by simp [hcolon, hbracket]),
        if_neg (by simp [hequals])]
      exact ih fun d hd => hnames d (List.mem_cons_of_mem _ hd)

section Lines

variable {names : Names} {source : List String} {line : TokenLine} {kind : TokenKind}
  {opener : Opener}

/-- A line declares the name that is read from it, if that stands in front, and nothing
otherwise. -/
theorem declared_eq_name? (hline : line ∈ (lex names source).lines)
    (hkind : kind.declaredBy? = some opener) (hopener : line.opener? = some opener) :
    line.declared kind = if line.namesFirst then line.name?.toList else [] := by
  obtain ⟨front, rest, elements, hcontent, hfront, helements, htokens⟩ :=
    Reader.statement_of_opener? hline hopener
  have hheaded := Opener.headed_of_declaredBy? hkind helements
  rw [TokenLine.declared_of_opener? hopener, if_pos hkind, TokenLine.namesFirst, hcontent,
    hfront.stripComment_append, hfront.namesFirst_append, TokenLine.name?, htokens]
  generalize Declaration.namesFirst (Source.stripComment rest) = first at hheaded
  cases hheaded with
  | named name hothers =>
      show Atom.ofChars name :: wordsOf _ = _
      rw [hothers]
      rfl
  | unnamed hnone => exact hnone

/-- The names that a source lists are those of the declarations that are written with the name in
front. -/
theorem mem_map_ofKind_iff (hkind : kind.declaredBy? = some opener) (name : Atom) :
    name ∈ ((lex {} source).names.ofKind kind).map .text ↔
      ∃ other ∈ (lex {} source).lines, other.opener? = some opener ∧ other.namesFirst = true ∧
        other.name? = some name := by
  have hempty : Names.ofKind {} kind = [] := by cases kind <;> rfl
  have hnames : ((lex {} source).names.ofKind kind).map .text =
      (lex {} source).lines.flatMap (TokenLine.declared kind) := by
    rw [lex, Lexed.map_ofKind_scan, hempty, List.map_nil, List.nil_append]
  rw [hnames, List.mem_flatMap]
  constructor
  · rintro ⟨other, hother, hdeclared⟩
    have hopener : other.opener? = some opener := by
      simp only [TokenLine.declared, hkind] at hdeclared
      split at hdeclared
      · assumption
      · exact absurd hdeclared List.not_mem_nil
    rw [declared_eq_name? hother hkind hopener] at hdeclared
    split at hdeclared
    · rename_i hfirst
      exact ⟨other, hother, hopener, hfirst, Option.mem_toList.mp hdeclared⟩
    · exact absurd hdeclared List.not_mem_nil
  · rintro ⟨other, hother, hopener, hfirst, hname⟩
    refine ⟨other, hother, ?_⟩
    rw [declared_eq_name? hother hkind hopener, if_pos hfirst, hname]
    exact List.mem_singleton_self _

/-! ## The names of nodes -/

theorem name?_of_valueAt {name : Atom} (hname : Token.valueAt line.tokens 1 = .ok name) :
    line.name? = some name := by
  obtain ⟨⟨other, value⟩, hentry, rfl⟩ := exists_of_map_eq_ok hname
  rw [TokenLine.name?, Generate.getElem?_of_entryAt hentry]

/-- A declaration that is read has the name behind its word. -/
theorem declaration_of_effect (hkind : kind.declaredBy? = some opener)
    (hopener : line.opener? = some opener) {effect : Effect Node}
    (heffect : Reader.effect line = .ok effect) :
    ∃ node name, effect = .statement node ∧ line.name? = some name ∧
      node.declared? = some (kind, .ofName name) := by
  rw [Reader.effect_of_opener? hopener] at heffect
  cases kind with
  | constantName =>
      cases hkind
      obtain ⟨node, hnode, rfl⟩ := exists_of_map_eq_ok heffect
      obtain ⟨name, size, type, value, hname, rfl⟩ := Reader.constant_eq_ok hnode
      exact ⟨_, name, rfl, name?_of_valueAt hname, rfl⟩
  | variableName =>
      cases hkind
      obtain ⟨node, hnode, rfl⟩ := exists_of_map_eq_ok heffect
      obtain ⟨name, size, type, hname, rfl⟩ := Reader.variableNode_eq_ok hnode
      exact ⟨_, name, rfl, name?_of_valueAt hname, rfl⟩
  | pointerName =>
      cases hkind
      obtain ⟨node, hnode, rfl⟩ := exists_of_map_eq_ok heffect
      obtain ⟨name, type, value, hname, rfl⟩ := Reader.pointer_eq_ok hnode
      exact ⟨_, name, rfl, name?_of_valueAt hname, rfl⟩
  | _ => cases hkind

/-- The sort of a node that declares a name tells the word of its line. -/
theorem declaredBy?_of_sort {node identifier : Node}
    (hdeclared : node.declared? = some (kind, identifier)) (hsort : node.sort = opener.sort) :
    kind.declaredBy? = some opener := by
  have hsame : ∀ other : Opener, other.sort = opener.sort → other = opener := by
    intro other hother
    revert hother
    cases other <;> cases opener <;> decide
  unfold Node.declared? at hdeclared
  split at hdeclared <;> cases hdeclared
  · exact congrArg some (hsame .const hsort)
  · exact congrArg some (hsame .var hsort)
  · exact congrArg some (hsame .ptr hsort)

/-- The declaration on a line is listed exactly if there is one with its name in front. -/
theorem listed_iff (hkind : kind.declaredBy? = some opener) (hopener : line.opener? = some opener)
    {node : Node} (heffect : Reader.effect line = .ok (.statement node)) :
    node.Listed (lex {} source).names ↔
      ∃ other ∈ (lex {} source).lines, other.opener? = some opener ∧ other.namesFirst = true ∧
        other.name? = line.name? := by
  obtain ⟨_, name, heq, hname, hdeclared⟩ := declaration_of_effect hkind hopener heffect
  cases heq
  rw [hname, ← mem_map_ofKind_iff hkind, List.mem_map]
  constructor
  · intro hlisted
    obtain ⟨text, htext, heq⟩ := hlisted kind _ hdeclared
    cases heq
    exact ⟨text, htext, rfl⟩
  · rintro ⟨text, htext, rfl⟩ other identifier hother
    rw [hdeclared] at hother
    cases hother
    exact ⟨text, htext, rfl⟩

end Lines

/-- **Declarations and their names.**  The declarations in a program are all listed exactly if each
of them has the name of a declaration of its sort that is written with the name in front. -/
theorem listed_read_iff {source : List String} {statements : List Node}
    (hread : Reader.read (lex {} source).lines = .ok statements) :
    (∀ node ∈ Node.preorderAll statements, node.Listed (lex {} source).names) ↔
      ∀ position ∈ placed (lex {} source).lines, ∀ line,
        position.bind ((lex {} source).lines[·]?) = some line →
        ∀ (kind : TokenKind) (opener : Opener),
        kind.declaredBy? = some opener → line.opener? = some opener →
        ∃ other ∈ (lex {} source).lines, other.opener? = some opener ∧ other.namesFirst = true ∧
          other.name? = line.name? := by
  constructor
  · intro hlisted position hposition line hline kind opener hkind hopener
    obtain ⟨effect, heffect⟩ := Reader.effect_of_read hread line (mem_of_position hline)
    obtain ⟨node, name, rfl, -, hdeclared⟩ := declaration_of_effect hkind hopener heffect
    have hnode : node ≠ .absent := by
      rintro rfl
      cases hdeclared
    have hmem := (statement_mem_iff hread hnode (Reader.sort_of_effect heffect)).mpr
      ⟨position, hposition, line, hline, heffect⟩
    exact (listed_iff hkind hopener heffect).mp (hlisted node hmem)
  · intro hlines node hmem kind identifier hdeclared
    have hnode : node ≠ .absent := by
      rintro rfl
      cases hdeclared
    have hsort : node.sort ≠ Opener.cond.sort := by
      intro hsort
      have hkind := declaredBy?_of_sort hdeclared hsort
      cases kind <;> cases hkind
    obtain ⟨position, hposition, line, hline, heffect⟩ :=
      (statement_mem_iff hread hnode hsort).mp hmem
    obtain ⟨opener, hopener⟩ := Reader.opener?_of_effect heffect rfl
    have hstatement := heffect
    rw [Reader.effect_of_opener? hopener] at hstatement
    have hkind := declaredBy?_of_sort hdeclared (Reader.statement_of_openerEffect hstatement).1
    have hother := hlines position hposition line hline kind opener hkind hopener
    exact (listed_iff hkind hopener heffect).mpr hother kind identifier hdeclared

/-- A declaration with a value in front behind one with its name in front. -/
def declaredTwice : List String :=
  ["const a: int = 5;\n", "const = a; : int = 6;\n"]

/-- A declaration with a value in front is listed if another one lists its name. -/
theorem listed_declaredTwice :
    ∃ statements, Reader.read (lex {} declaredTwice).lines = .ok statements ∧
      statements.length = 2 ∧
      ∀ node ∈ Node.preorderAll statements, node.Listed (lex {} declaredTwice).names := by
  have hlines : ∀ line ∈ (lex {} declaredTwice).lines,
      line.opener? = some .const ∧ line.name? = some (.text "a") := by decide
  refine ⟨_, rfl, rfl, (listed_read_iff rfl).mpr ?_⟩
  intro position hposition line hline kind opener hkind hopener
  obtain ⟨hconst, hname⟩ := hlines line (mem_of_position hline)
  cases hconst.symm.trans hopener
  rw [hname]
  exact ⟨_, List.mem_cons_self .., rfl, rfl, rfl⟩

/-- A declaration with a value in front, and a call with its name. -/
def valueFirst : List String :=
  ["const = a; : int = 5;\n", "syscall 60, a, e;\n"]

/-- A constant that is declared with a value in front is not listed, and a call takes its name for
an address. -/
theorem not_listed_valueFirst :
    (lex {} valueFirst).fault = none ∧
      ∃ statements, Reader.read (lex {} valueFirst).lines = .ok statements ∧
        ∃ node ∈ Node.preorderAll statements,
          node.declared? = some (.constantName, .ofName (.text "a")) ∧
          ¬ node.Listed (lex {} valueFirst).names ∧
          Generate.argumentText (lex {} valueFirst).names (.bare (.text "a")) = .ok "a" := by
  have hnames : (lex {} valueFirst).names = {} := rfl
  refine ⟨rfl, _, rfl, _, List.mem_cons_self .., rfl, ?_, rfl⟩
  intro hlisted
  obtain ⟨name, hname, -⟩ := hlisted .constantName _ rfl
  rw [hnames] at hname
  exact absurd hname List.not_mem_nil

end LineCompiler
