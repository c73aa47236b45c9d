import MathLine.Proofs.TexTokens

set_option autoImplicit false

/-!
# The tokens of a row and of its parts

A row is written part by part, and only the texts of two parts side by side are looked at to
tell whether a space is needed between them.  That this is enough was shown of texts
(`tokens_join`).  Here it is said of the nodes that are read from a line: each row of them, at
any depth, is read as its parts are read when they are written alone, and so it does not matter
whether it is written as an outermost row or inside a construction (`tokens_of_mem_rows`).
-/

namespace MathLine

namespace Node

/-- The row itself and the rows inside its nodes, at every depth. -/
def rows (ns : List Node) : List (List Node) := ns :: (inRow ns).flatMap childRows

/-- What is so for all nodes of a row at every depth is so for those of the rows in it. -/
theorem forall_inRow_of_mem_rows {Q : Node → Prop} {ns row : List Node} (hrow : row ∈ rows ns)
    (h : ∀ m ∈ inRow ns, Q m) : ∀ m ∈ inRow row, Q m := by
  rcases List.mem_cons.1 hrow with rfl | hrow
  · exact h
  · obtain ⟨n, hn, hchild⟩ := List.mem_flatMap.1 hrow
    exact forall_inRow_of_childRow hchild fun m hm => h m (inTree_subset_inRow ns n hn hm)

end Node

namespace Tex

/-- The parts of a row, each as a row of its own: a function name with the group directly after
it, or else a single node. -/
def partRows : List Node → List (List Node)
  | [] => []
  | .function name :: .parens inner :: rest => [.function name, .parens inner] :: partRows rest
  | n :: rest => [n] :: partRows rest

/-- The parts of a row are nothing but the row, taken apart. -/
@[simp] theorem flatten_partRows (ns : List Node) : (partRows ns).flatten = ns := by
  fun_induction partRows ns with
  | case1 => rfl
  | case2 name inner rest ih => rw [List.flatten_cons, ih, List.cons_append, List.singleton_append]
  | case3 n rest _ ih => rw [List.flatten_cons, ih, List.singleton_append]

/-- What is written for the parts of a row is what is written for each part alone. -/
theorem parts_eq_map_partRows (spacing : Spacing) (ns : List Node) :
    parts ns = (partRows ns).map fun part => join spacing (parts part) := by
  fun_induction partRows ns with
  | case1 => rw [parts, List.map_nil]
  | case2 name inner rest ih =>
    rw [parts, ih, List.map_cons, parts, parts, join_singleton]
  | case3 n rest halone ih =>
    have hsingle : parts [n] = [node n] := by
      rw [parts.eq_3 n [] fun _ _ _ _ hrest => List.cons_ne_nil _ _ hrest.symm, parts]
    rw [parts.eq_3 n rest halone, ih, List.map_cons, hsingle, join_singleton]

/-- The tokens of a row are those of its parts written alone. -/
theorem tokens_join_parts (spacing : Spacing) {ns : List Node}
    (h : ∀ m ∈ Node.inRow ns, m.HasShape) :
    tokens (join spacing (parts ns)) =
      (partRows ns).flatMap fun part => tokens (join spacing (parts part)) := by
  rw [tokens_join spacing (whole_parts h), parts_eq_map_partRows spacing ns, List.flatMap_map]

/-- Every row of nodes in a line that has been read, at any depth, has the tokens of its parts,
one part after the other, whether it is written as an outermost row or inside a construction. -/
theorem tokens_of_mem_rows (s : List Char) :
    ∀ row ∈ Node.rows (Node.readLine s),
      tokens (outerRow row) = (partRows row).flatMap (fun part => tokens (outerRow part)) ∧
        tokens (innerRow row) = (partRows row).flatMap (fun part => tokens (innerRow part)) ∧
          tokens (innerRow row) = tokens (outerRow row) := by
  intro row hrow
  have hshape := Node.forall_inRow_of_mem_rows hrow (hasShape_of_mem_readLine s)
  refine ⟨tokens_join_parts .apart hshape, tokens_join_parts .together hshape, ?_⟩
  calc tokens (innerRow row)
      = (parts row).flatMap tokens := tokens_join .together (whole_parts hshape)
    _ = tokens (outerRow row) := (tokens_join .apart (whole_parts hshape)).symm

/-- What is read in the exponent of `2^(ln(y)sin z)`. -/
def exponentOfNames : List Node :=
  [.function "ln", .parens [.letter 'y'], .function "sin", .letter 'z']

/-- A control word and a letter stand side by side in this exponent. -/
theorem tokens_exponentOfNames :
    exponentOfNames ∈ Node.rows (Node.readLine "2^(ln(y)sin z)".toList) ∧
      tokens (outerRow exponentOfNames) =
          (partRows exponentOfNames).flatMap (fun part => tokens (outerRow part)) ∧
        tokens (innerRow exponentOfNames) =
            (partRows exponentOfNames).flatMap (fun part => tokens (innerRow part)) ∧
          tokens (innerRow exponentOfNames) = tokens (outerRow exponentOfNames) :=
  have hmem : exponentOfNames ∈ Node.rows (Node.readLine "2^(ln(y)sin z)".toList) := by
    decide +kernel
  ⟨hmem, tokens_of_mem_rows _ _ hmem⟩

end Tex

end MathLine
