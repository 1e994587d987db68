import DucklakeCdc.BatchBuilding
import DucklakeCdc.SqlRendering

/-!
The identity of a batch (`derive_batch_id` in `types.py`). The name in front may contain
anything; the two snapshots after the last slash are decimal numbers, so that the text can
be taken apart again.
-/
namespace CdcBatch
open CdcSql Readers
variable {ι κ : Type}

theorem cut_unique {α : Type} {a : α} {xs ys xs' ys' : List α} (left : a ∉ xs' ∨ a ∉ ys)
    (right : a ∉ xs ∨ a ∉ ys') (same : xs ++ a :: ys = xs' ++ a :: ys') : xs = xs' ∧ ys = ys' := by
  rcases List.append_eq_append_iff.mp same with ⟨gap,longer,rest⟩ | ⟨gap,longer,rest⟩
  · cases gap with
    | nil =>
      rw [List.append_nil] at longer
      exact ⟨longer.symm,(List.cons.inj rest).2⟩
    | cons b gap =>
      obtain ⟨rfl,tail⟩ := List.cons.inj rest
      subst xs' ys
      rcases left with no | no <;> simp at no
  · cases gap with
    | nil =>
      rw [List.append_nil] at longer
      exact ⟨longer,(List.cons.inj rest).2.symm⟩
    | cons b gap =>
      obtain ⟨rfl,tail⟩ := List.cons.inj rest
      subst xs ys'
      rcases right with no | no <;> simp at no

theorem toString_int (n : Int) : (toString n).toList = renderInt n := by
  rw [renderInt]
  exact toList_int n

theorem not_mem_toDigits {c : Char} (other : c.isDigit = false) (n : Nat) :
    c ∉ Nat.toDigits 10 n :=
  fun member => digit_ne (digits_of_toDigits n c member) other rfl

theorem toDigits_unique {m n : Nat} (same : Nat.toDigits 10 m = Nat.toDigits 10 n) : m = n := by
  have read := congrArg (Nat.ofDigitChars 10 · 0) same
  simpa only [Nat.ofDigitChars_ten_toDigits] using read

theorem not_mem_renderInt (n : Int) : '/' ∉ renderInt n := by
  have digits := not_mem_toDigits (c := '/') (by decide) n.natAbs
  rw [renderInt]
  split
  · rw [List.mem_cons]
    rintro (no | member)
    · exact absurd no (by decide)
    · exact digits member
  · exact digits

theorem number_before_dash {m n : Int} {ys zs : List Char}
    (same : renderInt m ++ '-' :: ys = renderInt n ++ '-' :: zs) : m = n ∧ ys = zs := by
  have no_dash := fun k => not_mem_toDigits (c := '-') (by decide) k
  have unsigned : ∀ (k : Nat) (rest rest' : List Char), Nat.toDigits 10 k ++ rest ≠ '-' :: rest' := by
    intro k rest rest' starts
    obtain ⟨c,more,digits,digit⟩ := toDigits_head k
    rw [digits] at starts
    exact digit_ne digit (by decide) (List.cons.inj starts).1
  rw [renderInt, renderInt] at same
  split at same <;> split at same
  · obtain ⟨digits,tail⟩ := cut_unique (Or.inl (no_dash _)) (Or.inl (no_dash _)) (List.cons.inj same).2
    have size := toDigits_unique digits
    exact ⟨by omega,tail⟩
  · exact absurd same.symm (unsigned _ _ _)
  · exact absurd same (unsigned _ _ _)
  · obtain ⟨digits,tail⟩ := cut_unique (Or.inl (no_dash _)) (Or.inl (no_dash _)) same
    have size := toDigits_unique digits
    exact ⟨by omega,tail⟩

theorem deriveBatchId_toList (name : String) (start stop : Int) :
    (deriveBatchId name start stop).toList =
      name.toList ++ '/' :: (renderInt start ++ '-' :: renderInt stop) := by
  rw [← toString_int, ← toString_int]
  simp [deriveBatchId, String.toList_append, toString]

theorem deriveBatchId_injective {name name' : String} {start start' stop stop' : Int}
    (same : deriveBatchId name start stop = deriveBatchId name' start' stop') :
    name = name' ∧ start = start' ∧ stop = stop' := by
  have texts := congrArg String.toList same
  rw [deriveBatchId_toList, deriveBatchId_toList] at texts
  have no_slash : ∀ m n : Int, '/' ∉ renderInt m ++ '-' :: renderInt n := by
    intro m n
    rw [List.mem_append, List.mem_cons]
    rintro (first | no | second)
    · exact not_mem_renderInt m first
    · exact absurd no (by decide)
    · exact not_mem_renderInt n second
  obtain ⟨names,numbers⟩ := cut_unique (Or.inr (no_slash _ _)) (Or.inr (no_slash _ _)) texts
  obtain ⟨starts,stops⟩ := number_before_dash numbers
  have last : renderInt stop ++ ['-'] = renderInt stop' ++ ['-'] := by rw [stops]
  exact ⟨String.toList_inj.mp names,starts,(number_before_dash last).1⟩

inductive Built : {ι : Type} → Batch ι → Prop where
  | dmlChanges {V : Type} {name : String} {connection : Option Nat} {now : Int}
      {rows : List (ChangeRow V)} {batch : Batch (Change V)}
      (built : dmlChangeBatch name connection now rows = some batch) : Built batch
  | dmlTicks {name : String} {connection : Option Nat} {now : Int} {rows : List DMLTickRow}
      {batch : Batch DMLTick} (built : dmlTickBatch name connection now rows = some batch) :
      Built batch
  | ddlChanges {name : String} {connection : Option Nat} {now : Int} {rows : List SchemaChangeRow}
      {batch : Batch SchemaChange}
      (built : ddlChangeBatch name connection now rows = some batch) : Built batch
  | ddlTicks {name : String} {connection : Option Nat} {now : Int} {rows : List DDLTickRow}
      {batch : Batch DDLTick} (built : ddlTickBatch name connection now rows = some batch) :
      Built batch

theorem batchId_of_build {name : String} {connection : Option Nat} {now : Int} {rows : List (Row ι)}
    {batch : Batch ι} (built : buildBatch name connection now rows = some batch) :
    batch.batchId = deriveBatchId batch.consumerName batch.startSnapshot batch.endSnapshot := by
  simp only [buildBatch, Option.bind_eq_bind, Option.bind_eq_some_iff] at built
  obtain ⟨start,_,stop,_,made⟩ := built
  cases made
  rfl

theorem batchId_of_built {batch : Batch ι} (h : Built batch) :
    batch.batchId = deriveBatchId batch.consumerName batch.startSnapshot batch.endSnapshot := by
  cases h with
  | dmlChanges built => exact batchId_of_build built
  | dmlTicks built => exact batchId_of_build built
  | ddlChanges built => exact batchId_of_build built
  | ddlTicks built => exact batchId_of_build built

/-- The id of a batch tells its consumer and its window: no two of them share one, whatever the
    consumer's name looks like and whichever builders made the batches. -/
theorem batch_id_identifies :
    (∀ (name name' : String) (start start' stop stop' : Int),
      deriveBatchId name start stop = deriveBatchId name' start' stop' →
        name = name' ∧ start = start' ∧ stop = stop') ∧
    ∀ (ι κ : Type) (batch : Batch ι) (batch' : Batch κ), Built batch → Built batch' →
      (batch.batchId = batch'.batchId ↔
        (batch.consumerName,batch.startSnapshot,batch.endSnapshot) =
          (batch'.consumerName,batch'.startSnapshot,batch'.endSnapshot)) := by
  refine ⟨fun _ _ _ _ _ _ same => deriveBatchId_injective same,?_⟩
  intro ι κ batch batch' built built'
  rw [batchId_of_built built, batchId_of_built built', Prod.mk.injEq, Prod.mk.injEq]
  constructor
  · exact deriveBatchId_injective
  · rintro ⟨names,starts,stops⟩
    rw [names, starts, stops]

example : deriveBatchId "orders/1-2" (-3) (-4) = "orders/1-2/-3--4" := by decide

end CdcBatch
