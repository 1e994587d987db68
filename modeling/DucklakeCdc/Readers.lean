import Mathlib.Data.List.Basic

/-!
Readers of text, over any alphabet. A reader takes a value off the front of its input.
`Reads` says that it reads a given text as a given value whatever comes after, as long as
what comes after may follow; its rules cover fixed text, runs of characters, quoted text
with the quote doubled, separated lists and items up to a closing character. At the end
stands what a reader of decimal numbers needs.
-/
namespace Readers
variable {χ α β : Type}

abbrev Reader (χ α : Type) := List χ → Option (α × List χ)

/-- Before anything that may follow, the reader takes the text and gives the value. -/
def Reads (r : Reader χ α) (follows : List χ → Prop) (text : List χ) (a : α) : Prop :=
  ∀ rest, follows rest → r (text ++ rest) = some (a,rest)

def Anything (_ : List χ) : Prop := True

def NotNext (kind : χ → Bool) (rest : List χ) : Prop := ∀ c, rest.head? = some c → kind c = false

def andThen (r : Reader χ α) (next : α → Reader χ β) : Reader χ β := fun input =>
  (r input).bind fun (a,rest) => next a rest

def mapped (f : α → β) (r : Reader χ α) : Reader χ β := fun input =>
  (r input).map fun (a,rest) => (f a,rest)

def settled (value : Option α) : Reader χ α := fun input => value.map fun a => (a,input)

variable {r : Reader χ α} {follows follows' : List χ → Prop} {text text' : List χ} {a : α} {b : β}

theorem reads_andThen {next : α → Reader χ β} (first : Reads r follows text a)
    (second : Reads (next a) follows' text' b)
    (join : ∀ rest, follows' rest → follows (text' ++ rest)) :
    Reads (andThen r next) follows' (text ++ text') b := by
  intro rest may
  rw [List.append_assoc, andThen, first _ (join rest may)]
  exact second rest may

theorem reads_mapped (f : α → β) (h : Reads r follows text a) :
    Reads (mapped f r) follows text (f a) := by
  intro rest may
  rw [mapped, h rest may]
  rfl

theorem reads_settled {value : Option α} (known : value = some a) :
    Reads (settled value : Reader χ α) Anything [] a := by
  intro rest _
  rw [settled, known]
  rfl

def whole (r : Reader χ α) (input : List χ) : Option α :=
  match r input with
  | some (a,[]) => some a
  | _ => none

theorem whole_of_reads (h : Reads r follows text a) (nothing : follows []) :
    whole r text = some a := by
  have all := h [] nothing
  rw [List.append_nil] at all
  rw [whole, all]

def run (kind : χ → Bool) : Reader χ (List χ) := fun input =>
  some (input.takeWhile kind,input.dropWhile kind)

theorem reads_run {kind : χ → Bool} (all : ∀ c ∈ text, kind c = true) :
    Reads (run kind) (NotNext kind) text text := by
  intro rest may
  have stop : rest.takeWhile kind = [] ∧ rest.dropWhile kind = rest := by
    cases rest with
    | nil => exact ⟨rfl,rfl⟩
    | cons c rest =>
      have other := may c rfl
      exact ⟨by simp [other],by simp [other]⟩
  rw [run, List.takeWhile_append_of_pos all, List.dropWhile_append_of_pos all, stop.1, stop.2,
    List.append_nil]

theorem length_le_intercalate {sep : List χ} {texts : List (List χ)}
    (some_ : ∀ t ∈ texts, t ≠ []) : texts.length ≤ (sep.intercalate texts).length := by
  induction texts with
  | nil => exact Nat.zero_le _
  | cons first texts ih =>
    have here : 0 < first.length := List.length_pos_iff.mpr (some_ first List.mem_cons_self)
    have later := ih fun t member => some_ t (List.mem_cons_of_mem first member)
    cases texts with
    | nil =>
      rw [List.intercalate_singleton]
      exact here
    | cons second texts =>
      rw [List.intercalate_cons_cons]
      simp only [List.length_append, List.length_cons] at later ⊢
      omega

theorem length_le_of_mem {sep : List χ} {texts : List (List χ)} (member : text ∈ texts) :
    text.length ≤ (sep.intercalate texts).length := by
  induction texts with
  | nil => cases member
  | cons first texts ih =>
    cases texts with
    | nil =>
      obtain rfl := List.mem_singleton.mp member
      exact Nat.le_of_eq (by rw [List.intercalate_singleton])
    | cons second texts =>
      rw [List.intercalate_cons_cons]
      simp only [List.length_append]
      rcases List.mem_cons.mp member with same | later
      · subst first
        omega
      · have := ih later
        omega

structure Separates (sep : List χ) (close : χ) (follows : List χ → Prop) : Prop where
  begins : sep ≠ []
  other : sep.head? ≠ some close
  between : ∀ rest, follows (sep ++ rest)
  closing : ∀ rest, follows (close :: rest)

section
variable [DecidableEq χ]

def exactly : List χ → Reader χ Unit
  | [], input => some ((),input)
  | c :: cs, d :: rest => if c = d then exactly cs rest else none
  | _ :: _, [] => none

theorem reads_exactly (text : List χ) : Reads (exactly text) Anything text () := by
  induction text with
  | nil => exact fun rest _ => rfl
  | cons c cs ih =>
    intro rest may
    rw [List.cons_append, exactly, if_pos rfl]
    exact ih rest may

def doubled (q : χ) (text : List χ) : List χ :=
  text.flatMap fun c => if c = q then [q,q] else [c]

def quoted (q : χ) (text : List χ) : List χ := q :: doubled q text ++ [q]

def unquote (q : χ) : Reader χ (List χ)
  | [] => none
  | [c] => if c = q then some ([],[]) else none
  | c :: d :: rest =>
    if c = q then
      if d = q then (unquote q rest).map fun (text,rest) => (q :: text,rest)
      else some ([],d :: rest)
    else (unquote q (d :: rest)).map fun (text,rest) => (c :: text,rest)

def readQuoted (q : χ) : Reader χ (List χ) := andThen (exactly [q]) fun _ => unquote q

variable {q : χ}

theorem unquote_end {rest : List χ} (may : rest.head? ≠ some q) :
    unquote q (q :: rest) = some ([],rest) := by
  cases rest with
  | nil => simp [unquote]
  | cons d rest =>
    have other : d ≠ q := by simpa using may
    rw [unquote, if_pos rfl, if_neg other]

theorem unquote_other {c : χ} (other : c ≠ q) {input : List χ} (more : input ≠ []) :
    unquote q (c :: input) = (unquote q input).map fun (text,rest) => (c :: text,rest) := by
  cases input with
  | nil => contradiction
  | cons d rest => rw [unquote, if_neg other]

theorem reads_unquote (text : List χ) :
    Reads (unquote q) (fun rest => rest.head? ≠ some q) (doubled q text ++ [q]) text := by
  intro rest may
  rw [List.append_assoc, List.singleton_append]
  induction text with
  | nil => exact unquote_end may
  | cons c text ih =>
    by_cases same : c = q
    · subst c
      rw [doubled, List.flatMap_cons, if_pos rfl, ← doubled]
      rw [List.append_assoc, List.cons_append, List.singleton_append, unquote, if_pos rfl,
        if_pos rfl, ih]
      rfl
    · rw [doubled, List.flatMap_cons, if_neg same, ← doubled, List.append_assoc,
        List.singleton_append, unquote_other same (by simp), ih]
      rfl

theorem reads_quoted (text : List χ) :
    Reads (readQuoted q) (fun rest => rest.head? ≠ some q) (quoted q text) text := by
  have split : quoted q text = [q] ++ (doubled q text ++ [q]) := rfl
  rw [split]
  exact reads_andThen (reads_exactly [q]) (reads_unquote text) fun _ _ => trivial

def separatedFrom (sep : List χ) (close : χ) (item : Reader χ α) : Nat → Reader χ (List α)
  | 0, _ => none
  | fuel + 1, input =>
    (item input).bind fun (a,rest) =>
      if rest.head? = some close then some ([a],rest.tail)
      else (exactly sep rest).bind fun (_,rest) =>
        (separatedFrom sep close item fuel rest).map fun (as,rest) => (a :: as,rest)

/-- Items up to a closing character. The input itself is fuel enough. -/
def separated (sep : List χ) (close : χ) (item : Reader χ α) : Reader χ (List α) := fun input =>
  if input.head? = some close then some ([],input.tail)
  else separatedFrom sep close item input.length input

variable {sep : List χ} {close : χ} {item : Reader χ α} {render : α → List χ} {items : List α}

theorem reads_separatedFrom (separates : Separates sep close follows) (some_ : items ≠ [])
    (each : ∀ a ∈ items, Reads item follows (render a) a) (fuel : Nat)
    (enough : items.length ≤ fuel) :
    Reads (separatedFrom sep close item fuel) Anything
      (sep.intercalate (items.map render) ++ [close]) items := by
  induction items generalizing fuel with
  | nil => contradiction
  | cons a items ih =>
    intro rest _
    cases fuel with
    | zero => simp at enough
    | succ fuel =>
      have first := each a List.mem_cons_self
      cases items with
      | nil =>
        rw [List.map_cons, List.map_nil, List.intercalate_singleton, List.append_assoc,
          List.singleton_append, separatedFrom, first _ (separates.closing rest)]
        simp
      | cons b items =>
        have later := ih (by simp) (fun x member => each x (List.mem_cons_of_mem a member)) fuel
          (by simpa using enough) rest trivial
        have unclosed : ∀ more, (sep ++ more).head? ≠ some close := by
          intro more
          rw [List.head?_append_of_ne_nil _ separates.begins]
          exact separates.other
        rw [List.map_cons, List.map_cons, List.intercalate_cons_cons, ← List.map_cons]
        simp only [List.append_assoc] at later ⊢
        rw [separatedFrom, first _ (separates.between _), Option.bind_some]
        dsimp only
        rw [if_neg (unclosed _), reads_exactly sep _ trivial, Option.bind_some, later]
        rfl

theorem reads_separated (separates : Separates sep close follows)
    (each : ∀ a ∈ items, Reads item follows (render a) a)
    (begins : ∀ a ∈ items, ∀ rest, (render a ++ rest).head? ≠ some close) :
    Reads (separated sep close item) Anything
      (sep.intercalate (items.map render) ++ [close]) items := by
  intro rest _
  cases items with
  | nil => simp [separated]
  | cons a items =>
    have texts : ∀ t ∈ (a :: items).map render, t ≠ [] := by
      intro t member empty
      obtain ⟨b,inside,rfl⟩ := List.mem_map.mp member
      have no := begins b inside [close]
      rw [empty] at no
      exact no rfl
    have enough : ((a :: items).map render).length ≤
        (sep.intercalate ((a :: items).map render) ++ [close] ++ rest).length := by
      have short : ((a :: items).map render).length ≤
          (sep.intercalate ((a :: items).map render)).length := length_le_intercalate texts
      simp only [List.length_append]
      omega
    have unclosed : (sep.intercalate ((a :: items).map render) ++ [close] ++ rest).head? ≠
        some close := by
      cases items with
      | nil =>
        rw [List.map_cons, List.map_nil, List.intercalate_singleton, List.append_assoc]
        exact begins a List.mem_cons_self _
      | cons b items =>
        rw [List.map_cons, List.map_cons, List.intercalate_cons_cons]
        simp only [List.append_assoc]
        exact begins a List.mem_cons_self _
    rw [separated, if_neg unclosed]
    rw [List.length_map] at enough
    exact reads_separatedFrom separates (by simp) each _ enough rest trivial

def closedFrom (close : χ) (item : Reader χ α) : Nat → Reader χ (List α)
  | 0, _ => none
  | fuel + 1, input =>
    if input.head? = some close then some ([],input.tail)
    else (item input).bind fun (a,rest) =>
      (closedFrom close item fuel rest).map fun (as,rest) => (a :: as,rest)

def closed (close : χ) (item : Reader χ α) : Reader χ (List α) := fun input =>
  closedFrom close item input.length input

theorem reads_closedFrom (each : ∀ a ∈ items, Reads item Anything (render a) a)
    (begins : ∀ a ∈ items, ∀ rest, (render a ++ rest).head? ≠ some close) (fuel : Nat)
    (enough : (items.flatMap render).length < fuel) :
    Reads (closedFrom close item fuel) Anything (items.flatMap render ++ [close]) items := by
  induction items generalizing fuel with
  | nil =>
    intro rest _
    cases fuel with
    | zero => contradiction
    | succ fuel => simp [closedFrom]
  | cons a items ih =>
    intro rest _
    cases fuel with
    | zero => contradiction
    | succ fuel =>
      have some_ : 0 < (render a).length := by
        apply List.length_pos_iff.mpr
        intro empty
        have no := begins a List.mem_cons_self [close]
        rw [empty] at no
        exact no rfl
      rw [List.flatMap_cons, List.length_append] at enough
      have later := ih (fun x member => each x (List.mem_cons_of_mem a member))
        (fun x member => begins x (List.mem_cons_of_mem a member)) fuel (by omega) rest trivial
      rw [List.flatMap_cons, List.append_assoc, List.append_assoc, ← List.append_assoc _ _ rest,
        closedFrom, if_neg (begins a List.mem_cons_self _), each a List.mem_cons_self _ trivial,
        Option.bind_some]
      dsimp only
      rw [later]
      rfl

theorem reads_closed (each : ∀ a ∈ items, Reads item Anything (render a) a)
    (begins : ∀ a ∈ items, ∀ rest, (render a ++ rest).head? ≠ some close) :
    Reads (closed close item) Anything (items.flatMap render ++ [close]) items := by
  intro rest _
  refine reads_closedFrom each begins _ ?_ rest trivial
  simp only [List.length_append, List.length_singleton]
  omega

end

section decimals

theorem digits_of_toDigits (n : Nat) : ∀ c ∈ Nat.toDigits 10 n, c.isDigit = true :=
  fun _ member => Nat.isDigit_of_mem_toDigits (by decide) (by decide) member

theorem reads_toDigits (n : Nat) : Reads (mapped (Nat.ofDigitChars 10 · 0) (run Char.isDigit))
    (NotNext Char.isDigit) (Nat.toDigits 10 n) n := by
  have read := reads_mapped (Nat.ofDigitChars 10 · 0) (reads_run (digits_of_toDigits n))
  rwa [Nat.ofDigitChars_ten_toDigits] at read

theorem digit_ne {c d : Char} (digit : c.isDigit = true) (other : d.isDigit = false) : c ≠ d := by
  intro same
  rw [same, other] at digit
  cases digit

theorem toDigits_head (n : Nat) : ∃ c more, Nat.toDigits 10 n = c :: more ∧ c.isDigit = true := by
  cases digits : Nat.toDigits 10 n with
  | nil => exact absurd digits Nat.toDigits_ne_nil
  | cons c more =>
    refine ⟨c,more,rfl,digits_of_toDigits n c ?_⟩
    rw [digits]
    exact List.mem_cons_self

theorem toDigits_no_zero {n : Nat} (some_ : n ≠ 0) : (Nat.toDigits 10 n).head? ≠ some '0' := by
  induction n using Nat.strongRecOn with
  | ind n ih =>
    by_cases small : n < 10
    · have digits : ∀ d < 10, d ≠ 0 → Nat.digitChar d ≠ '0' := by decide
      rw [Nat.toDigits_of_lt_base small]
      simpa using digits n small some_
    · rw [Nat.toDigits_of_base_le (by decide) (by omega), List.head?_append_of_ne_nil _
        Nat.toDigits_ne_nil]
      exact ih (n / 10) (by omega) (by omega)

theorem toList_int (n : Int) : (toString n).toList =
    if n < 0 then '-' :: Nat.toDigits 10 n.natAbs else Nat.toDigits 10 n.natAbs := by
  cases n with
  | ofNat n =>
    rw [if_neg (by simp)]
    exact Nat.toList_repr
  | negSucc n =>
    rw [if_pos (Int.negSucc_lt_zero n)]
    change ("-" ++ Nat.repr (n + 1)).toList = _
    rw [String.toList_append, Nat.toList_repr]
    rfl

end decimals
end Readers
