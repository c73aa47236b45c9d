import MathLine.Proofs.TexArguments

set_option autoImplicit false

/-!
# Commands without their groups

A fraction needs two groups, a root one, and so it is with a few more commands of TeX.  The
printer has them in two ways.  Where it writes a construction, or the form of a name that has
its groups in it, the groups are there.  But two names, `sqrt` and `binom`, are written as
nothing but the command, and of these only a called `sqrt` is given a group.

`lacking` reads from tokens which commands stand without their groups, and `Node.rowAwaiting`
tells it from the nodes.  That the two agree on every line (`lacking_line`) says that all other
commands have their groups wherever they stand, and that those two names have none.
-/

namespace MathLine

namespace Node

/-- The function names whose TeX is a command that waits for groups. -/
def awaitingNames : List String := [Lexicon.squareRoot, "binom"]

mutual

/-- The names in a node that are written as a command without its groups, in order. -/
def awaiting : Node → List String
  | function name => if awaitingNames.contains name then [name] else []
  | fraction numerator denominator => rowAwaiting numerator ++ rowAwaiting denominator
  | power base exponent => rowAwaiting base ++ rowAwaiting exponent
  | root radicand => rowAwaiting radicand
  | parens inner => rowAwaiting inner
  | subscript _ script => rowAwaiting script
  | _ => []

/-- The names in a row that are written as a command without its groups, in order.  The call of
a square root is written with a group. -/
def rowAwaiting : List Node → List String
  | [] => []
  | function name :: parens inner :: rest =>
    (if name = Lexicon.squareRoot then [] else (function name).awaiting) ++
      (rowAwaiting inner ++ rowAwaiting rest)
  | n :: rest => n.awaiting ++ rowAwaiting rest

end

end Node

namespace Tex

/-! ## Which commands stand without their groups -/

/-- The commands that take groups, with their number. -/
def groupTakers : List (String × Nat) :=
  [("frac", 2), ("binom", 2), ("sqrt", 1), ("text", 1), ("vec", 1), ("mathcal", 1), ("hat", 1)]

/-- How many groups a command needs. -/
def groupsNeeded (name : List Char) : Nat := (groupTakers.lookup (String.ofList name)).getD 0

/-- What stands after so many groups at the front. -/
def afterGroups? : Nat → List Token → Option (List Token)
  | 0, ts => some ts
  | count + 1, ts => (afterGroup? ts).bind (afterGroups? count)

/-- The names of the commands that are not followed directly by the groups they need, in
order. -/
def lacking : List Token → List (List Char)
  | [] => []
  | .control name :: ts =>
    if (afterGroups? (groupsNeeded name) ts).isSome then lacking ts else name :: lacking ts
  | .char _ :: ts => lacking ts

theorem afterGroups?_grouped_append {ts : List Token} (h : Nested ts) (count : Nat)
    (us : List Token) : afterGroups? (count + 1) (grouped ts ++ us) = afterGroups? count us := by
  rw [afterGroups?, afterGroup?_grouped_append h, Option.bind_some]

theorem afterGroups?_append {count : Nat} {ts rest : List Token}
    (h : afterGroups? count ts = some rest) (us : List Token) :
    afterGroups? count (ts ++ us) = some (rest ++ us) := by
  induction count generalizing ts with
  | zero => rw [afterGroups?, Option.some.inj h]
  | succ count ih =>
    obtain ⟨after, hafter, hmore⟩ := Option.bind_eq_some_iff.1 h
    rw [afterGroups?, afterGroup?_append hafter, Option.bind_some, ih hmore]

/-- A command that has its groups adds nothing. -/
theorem lacking_command {name : List Char} {ts rest : List Token}
    (h : afterGroups? (groupsNeeded name) ts = some rest) :
    lacking (.control name :: ts) = lacking ts := by
  rw [lacking, h, Option.isSome_some, if_pos rfl]

/-- A command that needs no groups adds nothing. -/
theorem lacking_free {name : List Char} (h : groupsNeeded name = 0) (ts : List Token) :
    lacking (.control name :: ts) = lacking ts :=
  lacking_command (by rw [h, afterGroups?])

/-- Tokens in which all commands have their groups add nothing to those after them. -/
theorem lacking_append_of_nil {ts : List Token} (h : lacking ts = []) (us : List Token) :
    lacking (ts ++ us) = lacking us := by
  fun_induction lacking ts with
  | case1 => rfl
  | case2 name ts hgroups ih =>
    obtain ⟨rest, hrest⟩ := Option.isSome_iff_exists.1 hgroups
    rw [List.cons_append, lacking_command (afterGroups?_append hrest us), ih h]
  | case3 name ts => exact absurd h (List.cons_ne_nil _ _)
  | case4 c ts ih => rw [List.cons_append, lacking, ih h]

/-- These names are the commands in `ts` that stand without their groups, whatever stands after
`ts`, if that is no group. -/
def Lacks (ts : List Token) (names : List String) : Prop :=
  ∀ us, beginsGroup us = false → lacking (ts ++ us) = names.map String.toList ++ lacking us

theorem lacks_of_lacking {ts : List Token} (h : lacking ts = []) : Lacks ts [] :=
  fun us _ => lacking_append_of_nil h us

theorem beginsGroup_append {ts us : List Token} (hts : beginsGroup ts = false)
    (hus : beginsGroup us = false) : beginsGroup (ts ++ us) = false := by
  cases ts with
  | nil => exact hus
  | cons t ts => exact hts

theorem Lacks.append {s t : List Token} {names more : List String} (hs : Lacks s names)
    (ht : Lacks t more) (hgroup : beginsGroup t = false) : Lacks (s ++ t) (names ++ more) := by
  intro us hus
  rw [List.append_assoc, hs _ (beginsGroup_append hgroup hus), ht us hus, List.map_append,
    List.append_assoc]

/-- What stands after a group makes no difference to what is in it. -/
theorem Lacks.lacking_grouped_append {ts : List Token} {names : List String}
    (h : Lacks ts names) (us : List Token) :
    lacking (grouped ts ++ us) = names.map String.toList ++ lacking us := by
  rw [grouped_append, lacking, h _ rfl, lacking]

theorem Lacks.sized {ts : List Token} {names : List String} (h : Lacks ts names) :
    Lacks (sized ts) names := by
  intro us _
  rw [sized_append, lacking_free (by decide +kernel), lacking, h _ rfl,
    lacking_free (by decide +kernel), lacking]

/-- A command with the one group that it needs. -/
theorem Lacks.command {name : List Char} (hneeds : groupsNeeded name = 1) {ts : List Token}
    {names : List String} (h : Lacks ts names) (hnested : Nested ts) :
    Lacks (.control name :: grouped ts) names := by
  intro us _
  have hafter : afterGroups? (groupsNeeded name) (grouped ts ++ us) = some us := by
    rw [hneeds, afterGroups?_grouped_append hnested, afterGroups?]
  rw [List.cons_append, lacking_command hafter, h.lacking_grouped_append]

theorem Lacks.fraction {numerator denominator : List Token} {names more : List String}
    (hover : Lacks numerator names) (hunder : Lacks denominator more) (hnested : Nested numerator)
    (hnested' : Nested denominator) :
    Lacks (.control "frac".toList :: (grouped numerator ++ grouped denominator))
      (names ++ more) := by
  intro us _
  have hneeds : groupsNeeded "frac".toList = 2 := by decide +kernel
  have hafter : afterGroups? (groupsNeeded "frac".toList)
      (grouped numerator ++ (grouped denominator ++ us)) = some us := by
    rw [hneeds, afterGroups?_grouped_append hnested, afterGroups?_grouped_append hnested',
      afterGroups?]
  rw [List.cons_append, List.append_assoc, lacking_command hafter, hover.lacking_grouped_append,
    hunder.lacking_grouped_append, List.map_append, List.append_assoc]

theorem Lacks.script {sign : Char} (hsign : sign ≠ '{') {base script : List Token}
    {names more : List String} (hbase : Lacks base names) (hscript : Lacks script more) :
    Lacks (scriptTokens sign base script) (names ++ more) := by
  intro us _
  have hstop : beginsGroup (.char sign :: (grouped script ++ us)) = false := by
    simp [beginsGroup, hsign]
  rw [scriptTokens, List.append_assoc, List.cons_append, hbase _ hstop, lacking,
    hscript.lacking_grouped_append, List.map_append, List.append_assoc]

/-- A command that stands without its groups. -/
theorem lacks_bare {name : String} (h : groupsNeeded name.toList ≠ 0) :
    Lacks [.control name.toList] [name] := by
  intro us hus
  obtain ⟨count, hcount⟩ := Nat.exists_eq_succ_of_ne_zero h
  have hnone : afterGroup? us = none := by
    cases us with
    | nil => rfl
    | cons t us =>
      have ht : t ≠ .char '{' := by simpa [beginsGroup] using hus
      rw [afterGroup?, if_neg ht]
  rw [List.cons_append, List.nil_append, lacking, hcount, afterGroups?, hnone]
  rfl

/-! ## What is written for nodes -/

theorem lacking_chars (s : List Char) : lacking (s.map .char) = [] := by
  induction s with
  | nil => rfl
  | cons c s ih => rw [List.map_cons, lacking, ih]

theorem lacking_escapeTokens (mode : Mode) (s : List Char) :
    lacking (escapeTokens mode s) = [] := by
  have hspecial : special.all fun c => (lacking (tokens (escapeChar mode c))).isEmpty := by
    cases mode <;> decide +kernel
  induction s with
  | nil => rfl
  | cons c s ih =>
    have hescape : lacking (tokens (escapeChar mode c)) = [] := by
      by_cases hc : c ∈ special
      · exact List.isEmpty_iff.1 (List.all_eq_true.1 hspecial c hc)
      · rw [tokens_escapeChar_of_not_special mode hc]
        split
        · rfl
        · exact lacking_chars [c]
    exact (lacking_append_of_nil hescape _).trans ih

theorem lacking_operatorTokens (op : Operator) : lacking (tokens (operator op).toList) = [] := by
  have hall : ∀ op ∈ Operator.all, lacking (tokens (operator op).toList) = [] := by
    decide +kernel
  exact hall op op.mem_all

theorem lacks_nameTokens (name : String) :
    Lacks (nameTokens name) (Node.awaiting (.function name)) := by
  rw [Node.awaiting, List.contains_eq_mem]
  by_cases hawaiting : name ∈ Node.awaitingNames
  · have hbare : ∀ name ∈ Node.awaitingNames,
        nameTokens name = [.control name.toList] ∧ groupsNeeded name.toList ≠ 0 := by
      decide +kernel
    obtain ⟨htokens, hneeds⟩ := hbare name hawaiting
    rw [decide_eq_true hawaiting, htokens]
    exact lacks_bare hneeds
  · have hforms : ∀ entry ∈ functions,
        entry.1 ∉ Node.awaitingNames → lacking (tokens entry.2.toList) = [] := by
      decide +kernel
    rw [decide_eq_false hawaiting]
    unfold nameTokens
    split
    · next form hform =>
      exact lacks_of_lacking (hforms (name, form) (mem_functions hform) hawaiting)
    · exact Lacks.command (by decide +kernel)
        (lacks_of_lacking (lacking_escapeTokens .text name.toList))
        (proper_escapeTokens .text name.toList).nested

theorem lacks_rootTokens {radicand : List Token} {names : List String}
    (h : Lacks radicand names) (hnested : Nested radicand) : Lacks (rootTokens radicand) names :=
  h.command (by decide +kernel) hnested

theorem lacks_callTokens (name : String) {arguments : List Token} {names : List String}
    (h : Lacks arguments names) (hnested : Nested arguments) :
    Lacks (callTokens name arguments)
      ((if name = Lexicon.squareRoot then [] else Node.awaiting (.function name)) ++ names) := by
  unfold callTokens
  split
  · exact lacks_rootTokens h hnested
  · exact (lacks_nameTokens name).append h.sized rfl

/-- A row does not begin with a group. -/
theorem not_group_row {ns : List Node} (h : ∀ m ∈ Node.inRow ns, m.HasShape) :
    beginsGroup (rowTokens ns) = false := by
  cases ns with
  | nil => rfl
  | cons n rest => exact (begins_row h).not_group

/-- What is written for a row of nodes has commands without their groups just for the names that
wait for them. -/
theorem lacks_row {ns : List Node} (h : ∀ m ∈ Node.inRow ns, m.HasShape) :
    Lacks (rowTokens ns) (Node.rowAwaiting ns) := by
  have hnested : ∀ {ns : List Node}, (∀ m ∈ Node.inRow ns, m.HasShape) → Nested (rowTokens ns) :=
    fun h => (proper_node_and_row.2 _ h).nested
  refine (Node.induction_of_all (fun n => Lacks (nodeTokens n) n.awaiting)
    (fun ns => (∀ m ∈ Node.inRow ns, m.HasShape) → Lacks (rowTokens ns) (Node.rowAwaiting ns))
    ?number ?letter ?text ?operator ?function ?fraction ?power ?root ?parens ?subscript
    ?nil ?call ?cons).2 ns h h
  case number => exact fun digits _ => lacks_of_lacking (lacking_chars digits.toList)
  case letter => exact fun c _ => lacks_of_lacking (lacking_chars [c])
  case text =>
    exact fun content _ => lacks_of_lacking (lacking_escapeTokens .math content.toList)
  case operator => exact fun op => lacks_of_lacking (lacking_operatorTokens op)
  case function => exact fun name _ => lacks_nameTokens name
  case fraction =>
    intro numerator denominator hover hunder
    rw [nodeTokens, Node.awaiting]
    exact (hover.2 hover.1).fraction (hunder.2 hunder.1) (hnested hover.1) (hnested hunder.1)
  case power =>
    intro base exponent hunder hover
    rw [nodeTokens, Node.awaiting]
    exact (hunder.2 hunder.1).script (by decide) (hover.2 hover.1)
  case root =>
    intro radicand hinner
    rw [nodeTokens, Node.awaiting]
    exact lacks_rootTokens (hinner.2 hinner.1) (hnested hinner.1)
  case parens =>
    intro inner hinner
    rw [nodeTokens, Node.awaiting]
    exact (hinner.2 hinner.1).sized
  case subscript =>
    intro base script _ hinner
    rw [nodeTokens, Node.awaiting]
    exact (lacks_of_lacking (lacking_chars base.toList)).script (by decide) (hinner.2 hinner.1)
  case nil => exact fun _ _ _ => rfl
  case call =>
    intro name inner rest hinner hrest hshape
    have hafter := Node.forall_inRow_tail (Node.forall_inRow_tail hshape)
    rw [rowTokens, Node.rowAwaiting, ← List.append_assoc]
    exact (lacks_callTokens name (hinner.2 hinner.1) (hnested hinner.1)).append (hrest hafter)
      (not_group_row hafter)
  case cons =>
    intro n rest halone hn hrest hshape
    have hafter := Node.forall_inRow_tail hshape
    -- the node may end in a command that waits for groups, but the rest begins with none
    rw [rowTokens.eq_3 n rest halone, Node.rowAwaiting.eq_3 n rest halone]
    exact hn.append (hrest hafter) (not_group_row hafter)

/-- In the TeX of a line every command has its groups, but for the names `sqrt`, where it is not
called, and `binom`, which are written as commands without any. -/
theorem lacking_line (s : List Char) :
    lacking (tokens (line (Node.readLine s)).toList) =
      (Node.rowAwaiting (Node.readLine s)).map String.toList := by
  have hshape := hasShape_of_mem_readLine s
  have hlacks := lacks_row hshape [] rfl
  rw [List.append_nil, lacking, List.append_nil] at hlacks
  rw [line, String.toList_ofList, tokens_outerRow hshape, hlacks]

/-- A called `binom` is followed by a bracket. -/
theorem lacking_called_binom :
    lacking (tokens (line (Node.readLine "binom(n,k)".toList)).toList) = ["binom".toList] := by
  decide +kernel

end Tex

end MathLine
