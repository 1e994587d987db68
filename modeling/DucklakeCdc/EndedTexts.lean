import Mathlib.Data.List.Infix

/-!
Texts one after the other, each ended by the same element, as lines are. What is left of them
when the end is cut off is some of them as they were, and the beginning of one more.
-/
namespace EndedTexts
variable {χ : Type}

def joined (stop : χ) (texts : List (List χ)) : List χ := texts.flatMap fun text => text ++ [stop]

theorem joined_append (stop : χ) (first second : List (List χ)) :
    joined stop (first ++ second) = joined stop first ++ joined stop second :=
  List.flatMap_append

theorem joined_eq_flatten (stop : χ) (texts : List (List χ)) :
    joined stop texts = (texts.map fun text => text ++ [stop]).flatten := List.flatMap_def ..

theorem joined_flatMap {α : Type} (stop : χ) (texts : α → List (List χ)) (items : List α) :
    joined stop (items.flatMap texts) = (items.map fun item => joined stop (texts item)).flatten := by
  rw [joined, List.flatMap_assoc, List.flatMap_def]
  rfl

section
variable [DecidableEq χ]

def endedFrom (stop : χ) : List χ → List χ → List (List χ)
  | _, [] => []
  | before, c :: rest =>
    if c = stop then before :: endedFrom stop [] rest else endedFrom stop (before ++ [c]) rest

/-- The texts that are ended; what comes after the last end is dropped. -/
def ended (stop : χ) (input : List χ) : List (List χ) := endedFrom stop [] input

variable {stop : χ} {text rest : List χ}

theorem endedFrom_text (plain : stop ∉ text) (before input : List χ) :
    endedFrom stop before (text ++ stop :: input) = (before ++ text) :: ended stop input := by
  induction text generalizing before with
  | nil => rw [List.nil_append, endedFrom, if_pos rfl, List.append_nil, ended]
  | cons c text ih =>
    rw [List.mem_cons, not_or] at plain
    rw [List.cons_append, endedFrom, if_neg (Ne.symm plain.1), ih plain.2, List.append_assoc,
      List.singleton_append]

theorem endedFrom_rest (plain : stop ∉ rest) (before : List χ) : endedFrom stop before rest = [] := by
  induction rest generalizing before with
  | nil => rfl
  | cons c rest ih =>
    rw [List.mem_cons, not_or] at plain
    rw [endedFrom, if_neg (Ne.symm plain.1), ih plain.2]

theorem ended_joined {texts : List (List χ)} (each : ∀ text ∈ texts, stop ∉ text)
    (plain : stop ∉ rest) : ended stop (joined stop texts ++ rest) = texts := by
  induction texts with
  | nil => exact endedFrom_rest plain []
  | cons text texts ih =>
    rw [List.forall_mem_cons] at each
    have shape : joined stop (text :: texts) ++ rest =
        text ++ stop :: (joined stop texts ++ rest) := by
      simp [joined]
    rw [shape, ended, endedFrom_text each.1, ih each.2, List.nil_append]

end

theorem cut_flatten {pieces : List (List χ)} {cut : List χ} (short : cut <+: pieces.flatten) :
    ∃ n ≤ pieces.length, ∃ rest, cut = (pieces.take n).flatten ++ rest ∧
      (n = pieces.length ∧ rest = [] ∨
        ∃ piece, pieces[n]? = some piece ∧ rest <+: piece ∧ rest ≠ piece) := by
  induction pieces generalizing cut with
  | nil => exact ⟨0,Nat.le_refl 0,[],by simpa using short,Or.inl ⟨rfl,rfl⟩⟩
  | cons piece pieces ih =>
    rw [List.flatten_cons] at short
    by_cases whole : piece <+: cut
    · obtain ⟨more,rfl⟩ := whole
      obtain ⟨n,most,rest,rfl,which⟩ := ih ((List.prefix_append_right_inj piece).mp short)
      refine ⟨n + 1,Nat.succ_le_succ most,rest,?_,?_⟩
      · rw [List.take_succ_cons, List.flatten_cons, List.append_assoc]
      · rcases which with ⟨all,nothing⟩ | inside
        · exact Or.inl ⟨congrArg (· + 1) all,nothing⟩
        · exact Or.inr inside
    · have within : cut <+: piece := by
        rcases List.prefix_or_prefix_of_prefix short (List.prefix_append piece _) with inside | beyond
        · exact inside
        · exact absurd beyond whole
      refine ⟨0,Nat.zero_le _,cut,rfl,Or.inr ⟨piece,rfl,within,?_⟩⟩
      rintro rfl
      exact whole (List.prefix_refl cut)

theorem not_next {pieces : List (List χ)} {piece rest : List χ} {n : Nat}
    (next : pieces[n]? = some piece) (short : rest <+: piece) (part : rest ≠ piece) :
    ¬ (pieces.take (n + 1)).flatten <+: (pieces.take n).flatten ++ rest := by
  intro whole
  rw [List.take_add_one, next, Option.toList_some, List.flatten_append, List.flatten_singleton] at whole
  exact part (short.eq_of_length_le ((List.prefix_append_right_inj _).mp whole).length_le)

/-- A part of ended texts, but not all of it: some whole texts and the beginning of the next. -/
theorem cut_joined {stop : χ} {texts : List (List χ)} {part : List χ}
    (short : part <+: joined stop texts) (less : part ≠ joined stop texts) :
    ∃ k < texts.length, ∃ text ∈ texts, ∃ rest, rest <+: text ∧
      part = joined stop (texts.take k) ++ rest := by
  rw [joined_eq_flatten] at short less
  obtain ⟨k,most,rest,rfl,which⟩ := cut_flatten short
  rcases which with ⟨all,rfl⟩ | ⟨piece,next,inside,other⟩
  · rw [all, List.take_length, List.append_nil] at less
    exact absurd rfl less
  · rw [List.getElem?_map, Option.map_eq_some_iff] at next
    obtain ⟨text,there,rfl⟩ := next
    obtain ⟨within,_⟩ := List.getElem?_eq_some_iff.mp there
    refine ⟨k,within,text,List.mem_of_getElem? there,rest,?_,?_⟩
    · exact (List.prefix_concat_iff.mp inside).resolve_left other
    · rw [joined_eq_flatten, List.map_take]

end EndedTexts
