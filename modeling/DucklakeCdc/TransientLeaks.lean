import DucklakeCdc.BatchTransaction
import DucklakeCdc.LeaseRespect
import DucklakeCdc.RefusalTexts
import DucklakeCdc.SinkDelivery
import Mathlib.Data.Finset.Card

/-!
Which transient failures reach the caller of a consumer with the default retry policy. A
call inside a retry uses up one attempt when it fails, and there are more attempts than
failures; a call outside of every retry hands its failure on. The prewarm query of a new
client is such a call, and so are the two that `schema_diff` makes after the window.
-/
namespace CdcTransient
open Programs CdcBatch CdcDatabase CdcRetry CdcSetup CdcRefusals

section
variable {ε σ α : Type} [Failure ε]

def RaisesTransient (p : EStateM ε σ α) (s : σ) : Prop :=
  Ends p s (fun _ _ => False) (fun e _ => isTransient e = true)

theorem raisesTransient_iff {p : EStateM ε σ α} {s : σ} {exposed : Prop}
    (h : Ends p s (fun _ _ => ¬ exposed) (fun e _ => isTransient e = true ↔ exposed)) :
    RaisesTransient p s ↔ exposed := by
  apply ends_iff
  exact ends_mono h (fun _ _ unexposed => ⟨False.elim,unexposed⟩) (fun _ _ same => same)

theorem isTransient_exc (e : Exc) : isTransient e = isTransientError e := rfl

theorem isTransient_raised (e : Exc) : isTransient (Failure.raised e : ε) = isTransientError e := by
  rw [isTransient, Failure.python_raised, Option.any_some]

theorem default_run (sleep : ℚ → EStateM ε σ Unit) (operation : EStateM ε σ α) :
    RetryPolicy.default.run sleep operation = attempts (sleep (1 / 5)) operation 4 := rfl

end

def queryError (e : Exc) : Exc :=
  if e.isException then .caused .duckLakeQueryError "DuckLake CDC query failed" e else e

def prewarmError (e : Exc) : Exc :=
  if e.isException then
    .caused .runtimeError "cdc prewarm failed (is ducklake_cdc LOADed on this connection?)" e
  else e

theorem queryError_transient (e : Exc) : isTransientError (queryError e) = isTransientError e := by
  have plain : transientMessage "DuckLake CDC query failed" = false :=
    not_transient_of_missing 'b' 'j' (by decide) (by rw [lower_ofList]; decide)
  unfold queryError
  split
  · rw [isTransientError, plain, Bool.false_or]
  · rfl

theorem prewarmError_transient (e : Exc) :
    isTransientError (prewarmError e) = isTransientError e := by
  have plain : transientMessage
      "cdc prewarm failed (is ducklake_cdc LOADed on this connection?)" = false :=
    not_transient_of_missing 'b' 'j' (by decide) (by rw [lower_ofList]; decide)
  unfold prewarmError
  split
  · rw [isTransientError, plain, Bool.false_or]
  · rfl

/-! Setup, inside its retry -/
section
variable {α β : Type} {p : Platform} {c : Config} {n : Nat} {s : Registry}

/-- From the next call on, at most `n` calls fail, each of them transiently. -/
structure Failing (n : Nat) (s : Registry) : Prop where
  few : ∃ faulty : Finset Nat, faulty.card ≤ n ∧
    ∀ i, s.calls.length ≤ i → (s.moments i).fault ≠ none → i ∈ faulty
  transient : ∀ i e, (s.moments i).fault = some e → isTransientError e = true

theorem failing_arrive (h : Failing n s) (call : CatalogCall) : Failing n (s.arrive call) := by
  obtain ⟨⟨faulty,few,counted⟩,transient⟩ := h
  refine ⟨⟨faulty,few,?_⟩,transient⟩
  intro i later
  rw [arrive_calls, List.length_append] at later
  exact counted i (by omega)

theorem failing_spent (h : Failing n s) (call : CatalogCall) {e : Exc}
    (fault : s.moment.fault = some e) : ∃ m, n = m + 1 ∧ Failing m (s.arrive call) := by
  obtain ⟨⟨faulty,few,counted⟩,transient⟩ := h
  have here : s.calls.length ∈ faulty := by
    apply counted _ (le_refl _)
    rw [show (s.moments s.calls.length).fault = some e from fault]
    exact Option.some_ne_none e
  have fewer := Finset.card_erase_of_mem here
  have some_left := Finset.card_pos.mpr ⟨_,here⟩
  refine ⟨n - 1,by omega,⟨faulty.erase s.calls.length,by omega,?_⟩,transient⟩
  intro i later failed
  rw [arrive_calls, List.length_append, List.length_singleton] at later
  exact Finset.mem_erase.mpr ⟨by omega,counted i (by omega) failed⟩

theorem failing_entries (h : Failing n s) (entries : Catalog) :
    Failing n { s with entries := entries } := ⟨h.few,h.transient⟩

theorem failing_mono (h : Failing n s) (mono : ℚ) : Failing n { s with mono := mono } :=
  ⟨h.few,h.transient⟩

def Spends (operation : Setup α) : Prop := ∀ n s, Failing n s →
  Ends operation s (fun _ => Failing n) (fun e t => Failing n t ∧
    (isTransientError e = true → ∃ m, n = m + 1 ∧ Failing m t))

theorem spends_pure (a : α) : Spends (pure a) := fun _ _ h => h

theorem spends_throw {e : Exc} (plain : isTransientError e = false) :
    Spends (throw e : Setup α) := by
  intro n s h
  refine ⟨h,?_⟩
  intro transient
  rw [plain] at transient
  contradiction

theorem spends_bind {first : Setup α} {next : α → Setup β} (hf : Spends first)
    (hn : ∀ a, Spends (next a)) : Spends (first >>= next) := by
  intro n s h
  rw [ends_bind]
  apply ends_mono (hf n s h) _ (fun _ _ spent => spent)
  intro a t kept
  exact hn a n t kept

theorem spends_get : Spends (get : Setup Registry) := fun _ _ h => h

theorem spends_tryExcept {caught : Exc → Bool} {operation : Setup α} {handler : Exc → Setup α}
    (op : Spends operation)
    (either : ∀ e, handler e = throw e ∨ ∃ a, handler e = pure a) :
    Spends (tryExcept caught operation handler) := by
  intro n s h
  rw [ends_tryExcept]
  apply ends_mono (op n s h) (fun _ _ kept => kept)
  intro e t spent
  split
  · rcases either e with again | ⟨a,given⟩
    · rw [again]
      exact spent
    · rw [given]
      exact spent.1
  · exact spent

theorem spends_callCatalog {call : CatalogCall} {effect : Catalog → Except Exc (α × Catalog)}
    (refusals : ∀ entries e, effect entries = .error e → isTransientError e = false) :
    Spends (callCatalog call effect) := by
  intro n s h
  apply ends_callCatalog
  · intro e fault
    exact ⟨failing_arrive h call,fun _ => failing_spent h call fault⟩
  · intro e _ refused
    refine ⟨failing_arrive h call,?_⟩
    intro transient
    rw [refusals _ e refused] at transient
    contradiction
  · intro a entries _ _
    exact failing_entries (failing_arrive h call) entries

theorem spends_lookupConsumer : Spends (lookupConsumer c) := by
  apply spends_bind
  · apply spends_callCatalog
    intro entries e refused
    cases refused
  · intro entries
    exact spends_pure _

theorem spends_ignoreMissing {operation : Setup Unit} (op : Spends operation) :
    Spends (ignoreMissing c.name operation) := by
  apply spends_tryExcept op
  intro e
  split
  · exact Or.inl rfl
  · exact Or.inr ⟨(),rfl⟩

/-- What setup itself has to say does not read as transient, nor do the extension's answers
    about the name. -/
structure Plain (p : Platform) (c : Config) : Prop where
  name : Unmistakable p c.name
  exists_ : isTransientError (p.alreadyExists c.name) = false
  missing : isTransientError (p.doesNotExist c.name) = false

variable (plain : Plain p c)
include plain

theorem spends_create : Spends (cdcConsumerCreate p c.name) := by
  apply spends_callCatalog
  intro entries e refused
  split at refused
  · cases refused
    exact plain.exists_
  · cases refused

theorem spends_forceRelease : Spends (cdcConsumerForceRelease p c.name) := by
  apply spends_callCatalog
  intro entries e refused
  split at refused
  · cases refused
  · cases refused
    exact plain.missing

theorem spends_drop : Spends (cdcConsumerDrop p c.name) := by
  apply spends_callCatalog
  intro entries e refused
  split at refused
  · cases refused
  · cases refused
    exact plain.missing

theorem spends_tryCreate : Spends (tryCreate p c) := by
  apply spends_tryExcept
  · exact spends_bind (spends_create plain) fun _ => spends_pure true
  · intro e
    split
    · exact Or.inl rfl
    · exact Or.inr ⟨false,rfl⟩

theorem spends_awaitLease (deadline : ℚ) : Spends (awaitLease p c deadline) := by
  intro n s h
  apply ends_awaitLease (Failing n) _ h
  intro t ht
  apply ends_mono (spends_lookupConsumer n t ht) _ (fun _ _ spent => spent)
  intro found u kept
  split
  · exact kept
  · rename_i entry _
    split
    · refine ⟨kept,?_⟩
      rw [waitedError_not_transient plain.name]
      exact fun no => absurd no Bool.false_ne_true
    · exact failing_mono kept _

theorem spends_applyLeasePolicy : Spends (applyLeasePolicy p c) := by
  apply spends_bind spends_lookupConsumer
  intro found
  apply spends_bind spends_get
  intro s
  cases leased found s.wall with
  | none => exact spends_pure ()
  | some entry =>
    cases policy : c.leasePolicy with
    | error =>
      exact spends_throw (leasedError_not_transient plain.name entry)
    | takeover =>
      exact spends_forceRelease plain
    | wait =>
      exact spends_bind spends_get fun s => spends_awaitLease plain _

theorem spends_setupConsumer : Spends (setupConsumer p c) := by
  have created : ∀ onExists, Spends (do
      let created ← tryCreate p c
      if created then pure ()
      else if onExists = OnExists.error then throw (existsError p c)
      else pure () : Setup Unit) := by
    intro onExists
    apply spends_bind (spends_tryCreate plain)
    intro done
    split
    · exact spends_pure ()
    · split
      · exact spends_throw (existsError_not_transient plain.name)
      · exact spends_pure ()
  unfold setupConsumer
  cases policy : c.onExists with
  | replace =>
    apply spends_bind
    · exact spends_bind (spends_ignoreMissing (spends_forceRelease plain))
        fun _ => spends_ignoreMissing (spends_drop plain)
    · exact fun _ => spends_create plain
  | use => exact created .use
  | error => exact created .error

theorem spends_setup : Spends (setupAndApplyLeasePolicy p c) := by
  apply spends_bind (spends_setupConsumer plain)
  intro _
  split
  · exact spends_pure ()
  · exact spends_applyLeasePolicy plain

theorem ends_retriedSetup (h : Failing 4 s) :
    Ends (RetryPolicy.default.run CdcSetup.sleep (setupAndApplyLeasePolicy p c)) s
      (fun _ _ => True) (fun e _ => isTransientError e = false) := by
  rw [default_run]
  apply ends_attempts_budget Failing _ _ 4 s h
  · intro n t ht
    apply ends_mono (spends_setup plain n t ht) (fun _ _ _ => trivial)
    intro e u spent
    rw [isTransient_exc]
    split
    · exact spent.2 ‹_›
    · simpa using ‹¬ isTransientError e = true›
  · intro n t ht
    exact failing_mono ht _

end
/-! Opening, around the setup -/
section
open CdcLifecycle CdcLeaseRespect
variable {σ κ α β : Type}

def Discreet (p : EStateM Exc σ α) : Prop :=
  ∀ s, Ends p s (fun _ _ => True) (fun e _ => isTransientError e = false)

theorem discreet_pure (a : α) : Discreet (pure a : EStateM Exc σ α) := fun _ => trivial

theorem discreet_get : Discreet (get : EStateM Exc σ σ) := fun _ => trivial

theorem discreet_set (s : σ) : Discreet (set s : EStateM Exc σ PUnit) := fun _ => trivial

theorem discreet_modify (f : σ → σ) : Discreet (modify f : EStateM Exc σ PUnit) := fun _ => trivial

theorem discreet_throw {e : Exc} (plain : isTransientError e = false) :
    Discreet (throw e : EStateM Exc σ α) := fun _ => plain

theorem discreet_bind {first : EStateM Exc σ α} {next : α → EStateM Exc σ β}
    (hf : Discreet first) (hn : ∀ a, Discreet (next a)) : Discreet (first >>= next) := by
  intro s
  rw [ends_bind]
  exact ends_mono (hf s) (fun a t _ => hn a t) (fun _ _ plain => plain)

theorem discreet_tryExcept {caught : Exc → Bool} {p : EStateM Exc σ α}
    {handler : Exc → EStateM Exc σ α} (hp : Discreet p)
    (hh : ∀ e, isTransientError e = false → Discreet (handler e)) :
    Discreet (tryExcept caught p handler) := by
  intro s
  rw [ends_tryExcept]
  apply ends_mono (hp s) (fun _ _ done => done)
  intro e t plain
  split
  · exact hh e plain t
  · exact plain

theorem discreet_policy {sleep : ℚ → EStateM Exc σ Unit} {operation : EStateM Exc σ α}
    (rest : ∀ d s, Ends (sleep d) s (fun _ _ => True) (fun _ _ => False))
    (op : Discreet operation) (policy : RetryPolicy) : Discreet (policy.run sleep operation) := by
  intro s
  have tried : ∀ t : σ, True → Ends operation t (fun _ _ => True)
      (fun e _ => isTransientError e = false ∧ True) := by
    intro t _
    exact ends_mono (op t) (fun _ _ done => done) fun _ _ plain => ⟨plain,trivial⟩
  apply ends_policy_err policy tried (fun d t _ => rest d t) _ s trivial
  intro t _
  change isTransientError maxAttemptsError = false
  exact bland_not_transient (bland_ofList (by decide))

/-- Nothing that `open` meets besides the database raises an error that reads as
    transient. -/
structure Quiet (r : Replies κ Registry) : Prop where
  derive : ∀ e, r.derive = some e → isTransientError e = false
  openSink : ∀ sink e, r.openSink sink = some e → isTransientError e = false
  rollbackSink : ∀ sink e, r.rollbackSink sink = some e → isTransientError e = false
  closeSink : ∀ sink e, r.closeSink sink = some e → isTransientError e = false
  closeConnection : ∀ e, r.closeConnection = some e → isTransientError e = false
  onClosed : isTransientError r.onClosed = false

variable {k : Consumer κ} {r : Replies κ Registry} {u : Lifecycle κ Registry}

theorem discreet_raiseIf {failure : Option Exc}
    (plain : ∀ e, failure = some e → isTransientError e = false) :
    Discreet (raiseIf failure : Owner κ Registry Unit) := by
  intro s
  rw [ends_raiseIf]
  cases answered : failure with
  | some e => exact plain e answered
  | none => trivial

theorem discreet_closeEach {answer : κ → Option Exc}
    (plain : ∀ sink e, answer sink = some e → isTransientError e = false) (sinks : List κ) :
    Discreet (closeEach answer sinks : Owner κ Registry Unit) := by
  induction sinks with
  | nil => exact discreet_pure ()
  | cons sink rest ih =>
    apply discreet_bind _ fun _ => ih
    apply discreet_tryExcept _ fun _ _ => discreet_pure ()
    exact discreet_bind (discreet_modify _) fun _ => discreet_raiseIf (plain sink)

theorem discreet_openEach (quiet : Quiet r) (sinks opened : List κ) :
    Discreet (openEach r opened sinks) := by
  induction sinks generalizing opened with
  | nil => exact discreet_pure ()
  | cons sink rest ih =>
    apply discreet_bind _ fun _ => ih _
    apply discreet_tryExcept
    · exact discreet_bind (discreet_raiseIf (quiet.openSink sink)) fun _ => discreet_modify _
    · intro e plain
      exact discreet_bind (discreet_closeEach quiet.rollbackSink _) fun _ => discreet_throw plain

theorem discreet_closeDerivedConnection (quiet : Quiet r) : Discreet (closeDerivedConnection r) := by
  apply discreet_bind discreet_get
  intro s
  cases s.derivedConnection with
  | none => exact discreet_pure ()
  | some connection =>
    apply discreet_bind (discreet_set _)
    intro _
    apply discreet_tryExcept _ fun _ _ => discreet_pure ()
    exact discreet_bind (discreet_modify _) fun _ => discreet_raiseIf quiet.closeConnection

theorem discreet_cleanup (quiet : Quiet r) {e : Exc} (plain : isTransientError e = false) :
    Discreet (do
      closeSinksQuietly k r
      closeDerivedConnection r
      throw e : Owner κ Registry Unit) := by
  apply discreet_bind (discreet_closeEach quiet.closeSink _)
  intro _
  exact discreet_bind (discreet_closeDerivedConnection quiet) fun _ => discreet_throw plain

variable {p : Platform} {c : Config}

def meeting (p : Platform) (c : Config) (r : Replies κ Registry) (prewarm : Option Exc) :
    Replies κ Registry :=
  { withSetup p c r with prewarm := prewarm.map prewarmError }

theorem quiet_meeting (quiet : Quiet r) (prewarm : Option Exc) : Quiet (meeting p c r prewarm) :=
  ⟨quiet.derive,quiet.openSink,quiet.rollbackSink,quiet.closeSink,quiet.closeConnection,
    quiet.onClosed⟩

theorem ends_guarded_quiet (plain : Plain p c) (default_ : k.retryPolicy = .default)
    (quiet : Quiet r) (prewarm : Option Exc) (connection : Connection) (h : Failing 4 u.db) :
    Ends (guarded k (meeting p c r prewarm) connection) u (fun _ _ => True)
      (fun e _ => isTransientError e = false) := by
  have setup : Ends (setupOn k (meeting p c r prewarm) connection) u
      (fun _ _ => True) (fun e _ => isTransientError e = false) := by
    unfold setupOn
    rw [ends_bind, ends_get, ends_within]
    split
    · apply discreet_policy
      · exact fun _ _ => trivial
      · exact discreet_throw quiet.onClosed
    · change Ends (k.retryPolicy.run CdcSetup.sleep (setupAndApplyLeasePolicy p c)) _ _ _
      rw [default_]
      exact ends_retriedSetup plain h
  unfold guarded attempt
  rw [ends_tryExcept, ends_bind]
  have handled : ∀ e t, isTransientError e = false →
      if caughtByBaseException e then
        Ends (do
          closeSinksQuietly k (meeting p c r prewarm)
          closeDerivedConnection (meeting p c r prewarm)
          throw e : Owner κ Registry Unit) t (fun _ _ => True)
          (fun e _ => isTransientError e = false)
      else isTransientError e = false := by
    intro e t reads
    exact discreet_cleanup (quiet_meeting quiet prewarm) reads t
  apply ends_mono setup
  · intro _ t _
    have sinks := discreet_bind (discreet_openEach (quiet_meeting (p := p) (c := c) quiet prewarm)
      k.sinks []) fun _ => discreet_modify fun s : Lifecycle κ Registry => { s with opened := true }
    apply ends_mono (sinks t) (fun _ _ done => done)
    exact handled
  · exact handled

def Prewarms (k : Consumer κ) (r : Replies κ Registry) (u : Lifecycle κ Registry) : Prop :=
  u.client = none ∧ (k.wiring = .connection ∨ r.derive = none)

theorem ends_enter_transient (plain : Plain p c) (default_ : k.retryPolicy = .default)
    (quiet : Quiet r) (prewarm : Option Exc)
    (transient : ∀ e, prewarm = some e → isTransientError e = true) (h : Failing 4 u.db) :
    Ends (enter k (meeting p c r prewarm)) u
      (fun _ _ => ¬ (Prewarms k r u ∧ prewarm ≠ none))
      (fun e _ => isTransientError e = true ↔ Prewarms k r u ∧ prewarm ≠ none) := by
  have same : (drawn k u).2.db = u.db := by
    unfold drawn
    split <;> rfl
  have calm : ∀ (connection : Connection) (v : Lifecycle κ Registry), v.db = u.db →
      ¬ (Prewarms k r u ∧ prewarm ≠ none) →
      Ends (guarded k (meeting p c r prewarm) connection) v
        (fun _ _ => ¬ (Prewarms k r u ∧ prewarm ≠ none))
        (fun e _ => isTransientError e = true ↔ Prewarms k r u ∧ prewarm ≠ none) := by
    intro connection v kept unexposed
    apply ends_mono (ends_guarded_quiet plain default_ quiet _ connection (by rwa [kept]))
    · exact fun _ _ _ => unexposed
    · intro e _ reads
      rw [reads]
      exact ⟨fun no => absurd no Bool.false_ne_true,fun exposed => absurd exposed unexposed⟩
  cases built : u.client with
  | some connection =>
    apply ends_enter_again built
    apply calm connection { u with connection := some connection } rfl
    intro exposed
    rw [exposed.1.1] at built
    cases built
  | none =>
    apply ends_enter_first built
    · intro e refused derives
      have raised : r.derive = some e := refused
      rw [quiet.derive e raised]
      constructor
      · exact fun no => absurd no Bool.false_ne_true
      · intro exposed
        rcases exposed.1.2 with given | derived
        · contradiction
        · rw [raised] at derived
          cases derived
    · intro e cold ready
      obtain ⟨raw,failed,rfl⟩ := Option.map_eq_some_iff.mp cold
      rw [prewarmError_transient, transient raw failed]
      constructor
      · intro _
        exact ⟨⟨built,ready⟩,by rw [failed]; exact Option.some_ne_none raw⟩
      · exact fun _ => rfl
    · intro warm _
      apply calm _ { (drawn k u).2 with client := some (drawn k u).1 } same
      intro exposed
      exact exposed.2 (Option.map_eq_none_iff.mp warm)

end
/-! The other operations, against a script -/
section
open CdcLoop CdcDelivery CdcTransaction
variable {ι α β : Type} {operation : Client ι α} {w : World ι} {script : List (Act ι)}

def fails (act : Act ι) : Bool := act.raises.isSome

/-- The call fails transiently, if at all, and what the database refuses by itself does not
    read as transient. -/
structure Sound (act : Act ι) : Prop where
  transient : ∀ e, act.raises = some e → isTransientError e = true
  refusal : isTransientError act.refusal = false

structure Sparse (script : List (Act ι)) : Prop where
  few : script.countP fails < 5
  sound : ∀ act ∈ script, Sound act

def through (script : List (Act ι)) : List (Act ι) := (script.dropWhile fails).tail

def NextFails (script : List (Act ι)) : Prop := ∃ act rest, script = act :: rest ∧ fails act = true

/-- The operation is one call: it returns if the call does, and raises something transient
    only if the call fails. Whether it raises anything `own` besides. -/
def OneCall (own : Prop) (operation : Client ι α) : Prop := ∀ w : World ι,
  (∀ act ∈ w.script, Sound act) →
  Ends operation w (fun _ u => ∃ act, w.script = act :: u.script ∧ fails act = false)
    (fun e u => if isTransient e then ∃ act, w.script = act :: u.script ∧ fails act = true
      else own ∨ w.script = [])

structure Trying (script : List (Act ι)) (n : Nat) (w : World ι) : Prop where
  few : w.script.countP fails ≤ n
  sound : ∀ act ∈ w.script, Sound act
  same : through w.script = through script

theorem ends_retriedCall {own : Prop} (one : OneCall own operation) (h : Sparse w.script) :
    Ends (RetryPolicy.default.run CdcLoop.sleep operation) w
      (fun _ u => u.script = through w.script)
      (fun e _ => isTransient e = false ∧ (own ∨ through w.script = [])) := by
  rw [default_run]
  apply ends_attempts_budget (Trying w.script) _ _ 4 w
  · exact ⟨Nat.le_of_lt_succ h.few,h.sound,rfl⟩
  · intro n u trying
    apply ends_mono (one u trying.sound)
    · intro _ v facts
      obtain ⟨act,cut,clean⟩ := facts
      rw [← trying.same, cut, through, List.dropWhile_cons, clean]
      rfl
    · intro e v spent
      split
      · rename_i reads
        rw [if_pos reads] at spent
        obtain ⟨act,cut,failed⟩ := spent
        have count := trying.few
        rw [cut, List.countP_cons, if_pos failed] at count
        refine ⟨n - 1,by omega,by omega,?_,?_⟩
        · intro other member
          exact trying.sound other (by rw [cut]; exact List.mem_cons_of_mem _ member)
        · rw [← trying.same, cut, through, through, List.dropWhile_cons, failed]
          rfl
      · rename_i final
        rw [if_neg final] at spent
        refine ⟨by simpa using final,spent.imp id ?_⟩
        intro ended
        rw [← trying.same, ended]
        rfl
  · intro n u trying
    exact ⟨trying.few,trying.sound,trying.same⟩

def ask (answer : α) : Client ι α := do
  let act ← step
  match act.raises with
  | some e => throwExc e
  | none => pure answer

theorem oneCall_step {own : Prop} {next : Act ι → Client ι α}
    (go : ∀ act (u : World ι), Sound act → Ends (next act) u
      (fun _ v => v.script = u.script ∧ fails act = false)
      (fun e v => if isTransient e then v.script = u.script ∧ fails act = true else own)) :
    OneCall own (step >>= next) := by
  intro w sound
  rw [ends_bind]
  apply ends_step
  · intro ended
    exact Or.inr ended
  · intro act rest script
    apply ends_mono (go act _ (sound act (by simp [script])))
    · intro _ v facts
      obtain ⟨same,clean⟩ := facts
      rw [meet_script] at same
      exact ⟨act,by rw [script, same],clean⟩
    · intro e v facts
      split
      · rename_i reads
        rw [if_pos reads, meet_script] at facts
        exact ⟨act,by rw [script, facts.1],facts.2⟩
      · rename_i final
        rw [if_neg final] at facts
        exact Or.inl facts

theorem ends_answer {own : Prop} {act : Act ι} (sound : Sound act) (u : World ι)
    {given : Client ι α}
    (done : ∀ err, Ends given u (fun _ v => v.script = u.script) err) :
    Ends (match act.raises with
      | some e => throwExc e
      | none => given) u
      (fun _ v => v.script = u.script ∧ fails act = false)
      (fun e v => if isTransient e then v.script = u.script ∧ fails act = true else own) := by
  cases raises : act.raises with
  | some e =>
    have reads : isTransientError e = true := sound.transient e raises
    change if isTransientError e = true then _ else _
    rw [if_pos reads]
    exact ⟨rfl,by simp [fails, raises]⟩
  | none => exact ends_mono (done _) (fun _ _ same => ⟨same,by simp [fails, raises]⟩) fun _ _ h => h

theorem oneCall_ask (answer : α) : OneCall False (ask answer : Client ι α) := by
  apply oneCall_step
  intro act u sound
  exact ends_answer sound u fun _ => rfl

theorem oneCall_listenOp (own : Prop) (cdc : Extension ι) (k : Int) :
    OneCall own (listenOp cdc k) := by
  apply oneCall_step
  intro act u sound
  exact ends_answer sound u fun _ => rfl

theorem readWindowError_not_transient (c : Consumer) :
    isTransientError (readWindowError c) = false := by
  have function : ' ' ∉ lower c.readFunction ∧ 'j' ∉ lower c.readFunction := by
    unfold Consumer.readFunction
    split <;> decide
  have rest : 'k' ∉ lower " start_snapshot and end_snapshot must both be provided when either is set" ∧
      'j' ∉ lower " start_snapshot and end_snapshot must both be provided when either is set" := by
    rw [lower_ofList]
    decide
  have colon : lower ": start_snapshot and end_snapshot must both be provided when either is set" =
      ':' :: lower " start_snapshot and end_snapshot must both be provided when either is set" := by
    rw [lower_ofList, lower_ofList]
    rfl
  have text : lower (c.readFunction ++
      ": start_snapshot and end_snapshot must both be provided when either is set") =
      lower c.readFunction ++ ':' ::
        lower " start_snapshot and end_snapshot must both be provided when either is set" := by
    rw [lower_append, colon]
  change transientMessage (c.readFunction ++
    ": start_snapshot and end_snapshot must both be provided when either is set") = false
  rw [← Bool.not_eq_true, transientMessage_iff, text]
  rintro (locked | failed)
  · -- the colon parts the function's name, without a blank, from a text without a k
    rcases infix_of_append_cons (by decide) locked with before | after
    · exact not_infix_of_missing (by decide) function.1 before
    · exact not_infix_of_missing (by decide) rest.1 after
  · exact not_infix_of_missing (c := 'j') (by decide)
      (by simpa using ⟨function.2,rest.2⟩) failed

theorem oneCall_readOp (cdc : Extension ι) (c : Consumer) (k : Int)
    (startSnapshot endSnapshot : Option Int) :
    OneCall True (readOp cdc c k startSnapshot endSnapshot) := by
  have plain := readWindowError_not_transient c
  have mixed : OneCall True (throwExc (readWindowError c) : Client ι (List (Row ι))) := by
    intro w _
    change if isTransientError (readWindowError c) = true then _ else _
    rw [plain, if_neg Bool.false_ne_true]
    exact Or.inl trivial
  have listens := oneCall_listenOp True cdc k
  unfold readOp
  cases startSnapshot with
  | none =>
    cases endSnapshot with
    | none => exact listens
    | some stop => exact mixed
  | some start =>
    cases endSnapshot with
    | none => exact mixed
    | some stop =>
      apply oneCall_step
      intro act u sound
      exact ends_answer sound u fun _ => rfl

def Explains (act : Act ι) (raised : Option Exc) : Prop :=
  (∀ e, raised = some e → isTransientError e = true → fails act = true) ∧
    (raised = none → fails act = false)

theorem explains_answer {act : Act ι} (sound : Sound act) (db : Database ι) (stmt : Statement ι) :
    Explains act (db.answer stmt act.toReply).1 := by
  unfold Database.answer Explains fails
  cases raises : act.raises with
  | some e => exact ⟨fun _ _ _ => rfl,fun no => by cases no⟩
  | none =>
    cases db.perform stmt with
    | some after => exact ⟨fun _ no => (by cases no),fun _ => rfl⟩
    | none =>
      constructor
      · intro e refused reads
        cases refused
        rw [sound.refusal] at reads
        contradiction
      · exact fun no => by cases no

theorem explains_answerOn {act : Act ι} (sound : Sound act) (db : Database ι) (connection : Nat)
    (stmt : Statement ι) : Explains act (db.answerOn connection stmt act.toReply).1 := by
  by_cases live : connection = db.live
  · rw [Database.answerOn, if_pos live]
    exact explains_answer sound db stmt
  · rw [Database.answerOn, if_neg live]
    constructor
    · intro e refused reads
      cases refused
      cases raises : act.raises with
      | some e => simp [fails, raises]
      | none =>
        rw [raises, Option.getD_none, sound.refusal] at reads
        contradiction
    · exact fun no => by cases no

theorem ends_raised {act : Act ι} {raised : Option Exc} {u v : World ι}
    (same : v.script = u.script) : Explains act raised →
    Ends (match raised with
      | some e => throwExc e
      | none => pure () : Client ι Unit) v
      (fun _ v => v.script = u.script ∧ fails act = false)
      (fun e v => if isTransient e then v.script = u.script ∧ fails act = true else True) := by
  intro told
  obtain ⟨failed,clean⟩ := told
  cases raised with
  | none => exact ⟨same,clean rfl⟩
  | some e =>
    change if isTransientError e = true then _ else _
    split
    · exact ⟨same,failed e rfl ‹_›⟩
    · trivial

theorem oneCall_commitOp (batch : Batch ι) : OneCall True (commitOp batch) := by
  apply oneCall_step
  intro act u sound
  rw [ends_bind, ends_get, ends_bind, ends_set]
  exact ends_raised rfl (explains_answer sound u.db _)

theorem oneCall_executeOn (connection : Nat) (stmt : Statement ι) :
    OneCall True (executeOn connection stmt) := by
  apply oneCall_step
  intro act u sound
  have told := explains_answerOn sound u.db connection stmt
  rw [ends_bind, ends_get]
  rcases answered : u.db.answerOn connection stmt act.toReply with ⟨raised,db⟩
  rw [answered] at told
  dsimp only
  rw [ends_bind, ends_set]
  exact ends_raised rfl told

theorem ends_bareAsk (answer : α) (sound : ∀ act ∈ w.script, Sound act) :
    Ends (ask answer) w
      (fun a u => a = answer ∧ ¬ NextFails w.script ∧ u.script = w.script.tail)
      (fun e _ => isTransient e = true ∧ NextFails w.script ∨
        isTransient e = false ∧ w.script = []) := by
  unfold ask
  rw [ends_bind]
  apply ends_step
  · exact fun ended => Or.inr ⟨rfl,ended⟩
  · intro act rest script
    cases raises : act.raises with
    | some e =>
      have reads := (sound act (by simp [script])).transient e raises
      exact Or.inl ⟨reads,act,rest,script,by simp [fails, raises]⟩
    | none =>
      refine ⟨rfl,?_,by simp [script]⟩
      intro failing
      obtain ⟨act',rest',cut,failed⟩ := failing
      rw [script] at cut
      cases cut
      simp [fails, raises] at failed

theorem not_nextFails_nil : ¬ NextFails ([] : List (Act ι)) := by
  intro failing
  obtain ⟨act,rest,cut,_⟩ := failing
  cases cut

theorem through_subset (script : List (Act ι)) : ∀ act ∈ through script, act ∈ script := by
  intro act member
  exact (List.dropWhile_suffix fails).subset (List.mem_of_mem_tail member)

end

structure ConsumerWindow where
  startSnapshot : Int
  endSnapshot : Int
  hasChanges : Bool
  schemaVersion : Int
  schemaChangesPending : Bool
  terminal : Bool
  terminalAtSnapshot : Option Int

/-- What the calls of `schema_diff` answer when they get through; `listedTable` is the table
    name in the consumer's list entry, if there is such an entry and it has one. -/
structure Answers (ρ : Type) where
  window : ConsumerWindow
  listedTable : Option String
  diff : String → String → Int → Int → List ρ

structure HighLevelConsumer (κ : Type) where
  platform : Platform
  config : Config
  owner : CdcLifecycle.Consumer κ
  kind : CdcLoop.ConsumerKind := .dml
  mode : CdcLoop.ConsumerMode := .ticks
  table : Option String := none
  catalog : String := "lake"

section
open CdcLoop
variable {κ ι ρ : Type} (x : HighLevelConsumer κ) (answers : Answers ρ)

def HighLevelConsumer.inLoop (opened : Bool) : CdcLoop.Consumer where
  name := x.config.name
  kind := x.kind
  mode := x.mode
  retryPolicy := x.owner.retryPolicy
  opened := opened

def window (opened : Bool) : Client ι ConsumerWindow := do
  requireOpen (x.inLoop opened)
  x.owner.retryPolicy.run CdcLoop.sleep (ask answers.window)

def heartbeat (client : Bool) : Client ι Unit :=
  if client then x.owner.retryPolicy.run CdcLoop.sleep (ask ()) else pure ()

def noBoundaryError : Exc := .raised .runtimeError
  ("consumer " ++ pyRepr x.platform x.config.name ++ " has no schema boundary to diff")

def noTableError : Exc := .raised .runtimeError
  ("schema_diff() requires a table name; table_id consumers need " ++
    "an existing consumer list entry with table_name")

def diffBounds (opened : Bool) (fromSnapshot toSnapshot : Option Int) : Client ι (Int × Int) :=
  match fromSnapshot, toSnapshot with
  | some first, some last => pure (first,last)
  | _, _ => do
    let next ← window x answers opened
    match next.terminalAtSnapshot with
    | none => throwExc (noBoundaryError x)
    | some boundary => pure (boundary,boundary)

def splitTable (tableName : String) : String × String :=
  match tableName.toList.span (· ≠ '.') with
  | (schema, _ :: table) => (String.ofList schema,String.ofList table)
  | (_, []) => (x.catalog,tableName)

/-- `_schema_diff_table`; its look at the consumer list is not retried. -/
def schemaDiffTable : Client ι (String × String) := do
  let tableName ← match x.table with
    | some tableName => pure (some tableName)
    | none => ask answers.listedTable
  match tableName with
  | none => throwExc noTableError
  | some tableName => pure (splitTable x tableName)

/-- The query itself is not retried either. -/
def schemaDiff (opened : Bool) (fromSnapshot toSnapshot : Option Int) : Client ι (List ρ) := do
  requireOpen (x.inLoop opened)
  let (first, last) ← diffBounds x answers opened fromSnapshot toSnapshot
  let (schemaName, tableName) ← schemaDiffTable x answers
  ask (answers.diff schemaName tableName first last)

def boundsGiven (fromSnapshot toSnapshot : Option Int) : Bool :=
  fromSnapshot.isSome && toSnapshot.isSome

def restAfterBounds (fromSnapshot toSnapshot : Option Int) (script : List (Act ι)) :
    List (Act ι) :=
  if boundsGiven fromSnapshot toSnapshot then script else through script

def Bounded (fromSnapshot toSnapshot : Option Int) : Prop :=
  boundsGiven fromSnapshot toSnapshot = true ∨ answers.window.terminalAtSnapshot ≠ none

/-- One of the queries of `schema_diff` outside a retry comes up and fails. -/
def DiffExposed (opened : Bool) (fromSnapshot toSnapshot : Option Int) (script : List (Act ι)) :
    Prop :=
  opened = true ∧ Bounded answers fromSnapshot toSnapshot ∧
    (NextFails (restAfterBounds fromSnapshot toSnapshot script) ∨
      x.table = none ∧ answers.listedTable ≠ none ∧
        NextFails (restAfterBounds fromSnapshot toSnapshot script).tail)

variable {x answers} {w : World ι} {opened : Bool} {fromSnapshot toSnapshot : Option Int}

theorem notOpenError_not_transient (c : CdcLoop.Consumer) :
    isTransientError (notOpenError c) = false := by
  unfold notOpenError ConsumerKind.className
  split <;> decide

theorem noBoundaryError_not_transient (h : Unmistakable x.platform x.config.name) :
    isTransientError (noBoundaryError x) = false :=
  quoted_not_transient h (bland_ofList (by decide)) (bland_ofList (by decide))

theorem ends_requireOpen {c : CdcLoop.Consumer} {ok : Unit → World ι → Prop}
    {err : Stop → World ι → Prop} (inside : c.opened = true → ok () w)
    (outside : c.opened = false → ∀ e, isTransient e = false → err e w) :
    Ends (requireOpen c) w ok err := by
  unfold requireOpen
  cases opened : c.opened with
  | true => exact inside opened
  | false => exact outside opened _ (notOpenError_not_transient c)

theorem ends_window (default_ : x.owner.retryPolicy = .default) (h : Sparse w.script) :
    Ends (window x answers opened) w
      (fun next u => next = answers.window ∧ u.script = through w.script)
      (fun e _ => isTransient e = false ∧ (opened = false ∨ through w.script = [])) := by
  unfold window
  rw [ends_bind]
  apply ends_requireOpen
  · intro _
    rw [default_]
    have given : Ends (RetryPolicy.default.run CdcLoop.sleep (ask answers.window)) w
        (fun next _ => next = answers.window) (fun _ _ => True) := by
      have asked : ∀ u : World ι, True → Ends (ask answers.window) u
          (fun next _ => next = answers.window) (fun _ _ => True ∧ True) := by
        intro u _
        unfold ask
        rw [ends_bind]
        apply ends_step
        · exact fun _ => ⟨trivial,trivial⟩
        · intro act rest script
          cases act.raises with
          | some e => exact ⟨trivial,trivial⟩
          | none => rfl
      have rests : ∀ u : World ι, True → Ends (CdcLoop.sleep (1 / 5)) u (fun _ _ => True)
          (fun _ _ => False) := fun _ _ => trivial
      rw [default_run]
      exact ends_attempts asked rests 4 w trivial
    apply ends_mono (ends_and given (ends_retriedCall (oneCall_ask answers.window) h))
    · exact fun _ _ facts => facts
    · intro e u facts
      exact ⟨facts.2.1,Or.inr (facts.2.2.resolve_left id)⟩
  · exact fun closed e reads => ⟨reads,Or.inl closed⟩

theorem ends_diffBounds (plain : Plain x.platform x.config)
    (default_ : x.owner.retryPolicy = .default) (h : Sparse w.script) :
    Ends (diffBounds x answers true fromSnapshot toSnapshot) w
      (fun _ u => u.script = restAfterBounds fromSnapshot toSnapshot w.script ∧
        Bounded answers fromSnapshot toSnapshot)
      (fun e _ => isTransient e = false ∧ (¬ Bounded answers fromSnapshot toSnapshot ∨
        restAfterBounds fromSnapshot toSnapshot w.script = [])) := by
  have looks : boundsGiven fromSnapshot toSnapshot = false →
      Ends (do
        let next ← window x answers true
        match next.terminalAtSnapshot with
        | none => throwExc (noBoundaryError x)
        | some boundary => pure (boundary,boundary) : Client ι (Int × Int)) w
        (fun _ u => u.script = restAfterBounds fromSnapshot toSnapshot w.script ∧
          Bounded answers fromSnapshot toSnapshot)
        (fun e _ => isTransient e = false ∧ (¬ Bounded answers fromSnapshot toSnapshot ∨
          restAfterBounds fromSnapshot toSnapshot w.script = [])) := by
    intro open_
    have rest : restAfterBounds fromSnapshot toSnapshot w.script = through w.script := by
      rw [restAfterBounds, open_, if_neg Bool.false_ne_true]
    rw [rest, ends_bind]
    apply ends_mono (ends_window default_ h)
    · intro next u facts
      obtain ⟨rfl,cut⟩ := facts
      cases boundary : answers.window.terminalAtSnapshot with
      | some snapshot =>
        refine ⟨cut,Or.inr ?_⟩
        rw [boundary]
        exact Option.some_ne_none snapshot
      | none =>
        simp only [ends_throwExc, isTransient_raised]
        refine ⟨noBoundaryError_not_transient plain.name,Or.inl ?_⟩
        unfold Bounded
        rw [open_, boundary]
        simp
    · intro e u facts
      refine ⟨facts.1,Or.inr ?_⟩
      exact facts.2.resolve_left (by decide)
  unfold diffBounds
  cases first : fromSnapshot with
  | none =>
    subst first
    exact looks rfl
  | some first_ =>
    subst first
    cases last : toSnapshot with
    | none =>
      subst last
      exact looks rfl
    | some last_ => exact ⟨rfl,Or.inl rfl⟩

theorem ends_schemaDiffTable (sound : ∀ act ∈ w.script, Sound act) :
    Ends (schemaDiffTable x answers) w
      (fun _ u => x.table ≠ none ∧ u.script = w.script ∨ x.table = none ∧
        answers.listedTable ≠ none ∧ ¬ NextFails w.script ∧ u.script = w.script.tail)
      (fun e _ => x.table = none ∧ (isTransient e = true ∧ NextFails w.script ∨
        isTransient e = false ∧ ¬ NextFails w.script ∧
          (answers.listedTable = none ∨ w.script = []))) := by
  unfold schemaDiffTable
  cases given : x.table with
  | some tableName => exact Or.inl ⟨Option.some_ne_none tableName,rfl⟩
  | none =>
    dsimp only
    rw [ends_bind]
    apply ends_mono (ends_bareAsk answers.listedTable sound)
    · intro tableName u facts
      obtain ⟨rfl,clean,cut⟩ := facts
      cases listed : answers.listedTable with
      | none =>
        have own : isTransientError noTableError = false :=
          bland_not_transient (bland_append (bland_ofList (by decide)) (bland_ofList (by decide)))
        simp only [ends_throwExc, isTransient_raised]
        exact ⟨trivial,Or.inr ⟨own,clean,Or.inl trivial⟩⟩
      | some tableName => exact Or.inr ⟨rfl,Option.some_ne_none tableName,clean,cut⟩
    · intro e u facts
      rcases facts with failed | ⟨reads,ended⟩
      · exact ⟨rfl,Or.inl failed⟩
      · refine ⟨rfl,Or.inr ⟨reads,?_,Or.inr ended⟩⟩
        rw [ended]
        exact not_nextFails_nil

theorem restAfterBounds_subset {script : List (Act ι)} :
    ∀ act ∈ restAfterBounds fromSnapshot toSnapshot script, act ∈ script := by
  intro act member
  unfold restAfterBounds at member
  split at member
  · exact member
  · exact through_subset script act member

theorem ends_schemaDiff (plain : Plain x.platform x.config)
    (default_ : x.owner.retryPolicy = .default) (h : Sparse w.script) :
    Ends (schemaDiff x answers opened fromSnapshot toSnapshot) w
      (fun _ _ => ¬ DiffExposed x answers opened fromSnapshot toSnapshot w.script)
      (fun e _ => isTransient e = true ↔
        DiffExposed x answers opened fromSnapshot toSnapshot w.script) := by
  unfold schemaDiff
  rw [ends_bind]
  apply ends_requireOpen
  · intro inside
    obtain rfl : opened = true := inside
    rw [ends_bind]
    apply ends_mono (ends_diffBounds plain default_ h)
    · intro bounds u facts
      obtain ⟨cut,bounded⟩ := facts
      have sound : ∀ act ∈ u.script, Sound act := by
        intro act member
        rw [cut] at member
        exact h.sound act (restAfterBounds_subset act member)
      unfold DiffExposed
      rw [← cut, ends_bind]
      apply ends_mono (ends_schemaDiffTable sound)
      · intro table v facts
        have sound_ : ∀ act ∈ v.script, Sound act := by
          intro act member
          rcases facts with ⟨_,same⟩ | ⟨_,_,_,same⟩
          · rw [same] at member
            exact sound act member
          · rw [same] at member
            exact sound act (List.mem_of_mem_tail member)
        have same : NextFails v.script ↔ NextFails u.script ∨ x.table = none ∧
            answers.listedTable ≠ none ∧ NextFails u.script.tail := by
          rcases facts with ⟨given,same⟩ | ⟨given,listed,clean,same⟩
          · rw [same]
            simp [given]
          · rw [same]
            simp [given, listed, clean]
        apply ends_mono (ends_bareAsk _ sound_)
        · intro _ _ facts exposed
          exact facts.2.1 (same.mpr exposed.2.2)
        · intro e _ failed
          rcases failed with ⟨reads,failing⟩ | ⟨reads,ended⟩
          · exact ⟨fun _ => ⟨rfl,bounded,same.mp failing⟩,fun _ => reads⟩
          · rw [reads]
            refine ⟨fun no => absurd no Bool.false_ne_true,fun exposed => ?_⟩
            have failing := same.mpr exposed.2.2
            rw [ended] at failing
            exact absurd failing not_nextFails_nil
      · intro e v facts
        obtain ⟨given,⟨reads,failing⟩ | ⟨reads,clean,rest⟩⟩ := facts
        · exact ⟨fun _ => ⟨rfl,bounded,Or.inl failing⟩,fun _ => reads⟩
        · rw [reads]
          refine ⟨fun no => absurd no Bool.false_ne_true,fun exposed => ?_⟩
          obtain ⟨_,_,failing | ⟨_,listed,failing⟩⟩ := exposed
          · exact absurd failing clean
          · rcases rest with unlisted | ended
            · exact absurd unlisted listed
            · rw [ended] at failing
              exact absurd failing not_nextFails_nil
    · intro e u facts
      obtain ⟨reads,rest⟩ := facts
      rw [reads]
      refine ⟨fun no => absurd no Bool.false_ne_true,fun exposed => ?_⟩
      obtain ⟨_,bounded,failing⟩ := exposed
      rcases rest with unbounded | ended
      · exact absurd bounded unbounded
      · rw [ended] at failing
        rcases failing with failing | ⟨_,_,failing⟩ <;> exact absurd failing not_nextFails_nil
  · intro closed e reads
    obtain rfl : opened = false := closed
    rw [reads]
    exact ⟨fun no => absurd no Bool.false_ne_true,fun exposed => absurd exposed.1 Bool.false_ne_true⟩

theorem ends_fetch {c : CdcLoop.Consumer} {own : Prop} {operation : Client ι (List (Row ι))}
    (default_ : c.retryPolicy = .default) (one : OneCall own operation) (h : Sparse w.script) :
    Ends (fetch c none operation) w (fun _ _ => True) (fun e _ => isTransient e = false) := by
  unfold fetch
  rw [ends_bind]
  apply ends_requireOpen
  · intro _
    rw [ends_bind, Consumer.effectiveRetry, Option.getD_none, default_]
    apply ends_mono (ends_retriedCall one h) _ fun _ _ facts => facts.1
    intro rows u _
    split
    · trivial
    · rw [ends_bind, buildRows, ends_bind, ends_get]
      split
      · trivial
      · rw [ends_throwExc, isTransient_raised]
        exact bland_not_transient (bland_ofList (by decide))
  · exact fun _ _ reads => reads

end

structure Surroundings (κ ι : Type) where
  lifecycle : CdcLifecycle.Lifecycle κ Registry
  world : CdcLoop.World ι

inductive Operation (κ ι : Type) where
  | enter (r : CdcLifecycle.Replies κ Registry) (prewarm : Option Exc)
  | listen (maxSnapshots : Int)
  | read (maxSnapshots : Int) (startSnapshot endSnapshot : Option Int)
  | window
  | commit (batch : Batch ι)
  | commitWithin (connection : Nat) (snapshot : Int)
  | heartbeat
  | schemaDiff (fromSnapshot toSnapshot : Option Int)

section
variable {κ ι ρ : Type} (x : HighLevelConsumer κ) (answers : Answers ρ) (cdc : CdcLoop.Extension ι)
  (s : Surroundings κ ι)

def Operation.Leaks : Operation κ ι → Prop
  | .enter r prewarm => RaisesTransient
      (CdcLifecycle.enter x.owner (meeting x.platform x.config r prewarm)) s.lifecycle
  | .listen k => RaisesTransient (CdcLoop.listen cdc (x.inLoop s.lifecycle.opened) k none) s.world
  | .read k startSnapshot endSnapshot => RaisesTransient
      (CdcLoop.read cdc (x.inLoop s.lifecycle.opened) k startSnapshot endSnapshot none) s.world
  | .window => RaisesTransient (CdcTransient.window x answers s.lifecycle.opened) s.world
  | .commit batch => RaisesTransient
      (CdcDelivery.commit (x.inLoop s.lifecycle.opened) batch) s.world
  | .commitWithin connection snapshot => RaisesTransient
      (CdcTransaction.commitSnapshotWithin (x.inLoop s.lifecycle.opened) connection snapshot)
      s.world
  | .heartbeat => RaisesTransient (CdcTransient.heartbeat x s.lifecycle.client.isSome) s.world
  | .schemaDiff fromSnapshot toSnapshot => RaisesTransient
      (CdcTransient.schemaDiff x answers s.lifecycle.opened fromSnapshot toSnapshot) s.world

/-- A query that the operation makes outside of every retry comes up and fails. -/
def Operation.Exposed : Operation κ ι → Prop
  | .enter r prewarm => Prewarms x.owner r s.lifecycle ∧ prewarm ≠ none
  | .schemaDiff fromSnapshot toSnapshot =>
      DiffExposed x answers s.lifecycle.opened fromSnapshot toSnapshot s.world.script
  | _ => False

/-- Database calls fail transiently, if at all, and in fewer than five of those that are
    retried; nothing else raises an error that reads as transient. -/
def Operation.Pattern : Operation κ ι → Prop
  | .enter r prewarm => Quiet r ∧ (∀ e, prewarm = some e → isTransientError e = true) ∧
      Failing 4 s.lifecycle.db
  | _ => Sparse s.world.script

variable {s}

theorem raisesTransient_never {σ ε α : Type} [Failure ε] {p : EStateM ε σ α} {t : σ}
    (h : Ends p t (fun _ _ => True) (fun e _ => isTransient e = false)) :
    RaisesTransient p t ↔ False := by
  apply raisesTransient_iff
  apply ends_mono h
  · exact fun _ _ _ => id
  · intro e _ reads
    rw [reads]
    exact ⟨Bool.false_ne_true,False.elim⟩

theorem raisesTransient_retried {own : Prop} {α : Type} {operation : CdcLoop.Client ι α}
    (default_ : x.owner.retryPolicy = .default) (one : OneCall own operation)
    (h : Sparse s.world.script) :
    RaisesTransient (x.owner.retryPolicy.run CdcLoop.sleep operation) s.world ↔ False := by
  apply raisesTransient_never
  rw [default_]
  exact ends_mono (ends_retriedCall one h) (fun _ _ _ => trivial) fun _ _ facts => facts.1

/-- With the default retry policy, and more attempts than failures, an operation raises a
    transient error exactly if a query that it makes outside of every retry fails: the
    prewarm query of a new client, or one of the two that `schema_diff` makes after the
    window. -/
theorem transient_leaks_iff (x : HighLevelConsumer κ) (answers : Answers ρ)
    (cdc : CdcLoop.Extension ι) (s : Surroundings κ ι) (op : Operation κ ι)
    (default_ : x.owner.retryPolicy = .default) (plain : Plain x.platform x.config)
    (pattern : op.Pattern s) : op.Leaks x answers cdc s ↔ op.Exposed x answers s := by
  cases op with
  | enter r prewarm =>
    obtain ⟨quiet,transient,failing⟩ := pattern
    exact raisesTransient_iff (ends_enter_transient plain default_ quiet prewarm transient failing)
  | listen k => exact raisesTransient_never (ends_fetch default_ (oneCall_listenOp False cdc k) pattern)
  | read k first last =>
    exact raisesTransient_never (ends_fetch default_ (oneCall_readOp cdc _ k first last) pattern)
  | window =>
    apply raisesTransient_never
    exact ends_mono (ends_window default_ pattern) (fun _ _ _ => trivial) fun _ _ facts => facts.1
  | commit batch => exact raisesTransient_retried x default_ (oneCall_commitOp batch) pattern
  | commitWithin connection snapshot =>
    exact raisesTransient_retried x default_ (oneCall_executeOn connection _) pattern
  | heartbeat =>
    unfold Operation.Leaks heartbeat
    cases s.lifecycle.client with
    | none => exact raisesTransient_never (p := pure ()) trivial
    | some connection => exact raisesTransient_retried x default_ (oneCall_ask ()) pattern
  | schemaDiff first last => exact raisesTransient_iff (ends_schemaDiff plain default_ pattern)

end

/-! A consumer pinned by its table's id, and a catalog that is locked once -/

def locked : Exc := .raised .otherException "IO Error: database is locked"

def byTableId : HighLevelConsumer Nat where
  platform := .plain
  config := ordersConfig .use
  owner := {}

theorem orders_plain : Plain byTableId.platform byTableId.config := by
  have told : ∀ needle, Bland needle →
      isTransientError (queryFailed ("consumer '" ++ "orders" ++ "' " ++ needle)) = false := by
    intro needle plain
    have quoted : Bland ("consumer '" ++ "orders" ++ "' ") := bland_append
      (bland_append (bland_ofList (by decide)) (bland_ofList (by decide))) (bland_ofList (by decide))
    have refusal := bland_not_transient (bland_append quoted plain)
    exact (queryError_transient (.raised .otherException _)).trans refusal
  exact ⟨bland_not_transient (by decide),told _ (bland_ofList (by decide)),
    told _ (bland_ofList (by decide))⟩

theorem locked_transient : isTransientError locked = true := by
  have found : "database is locked".toList <:+: lower "IO Error: database is locked" :=
    ⟨"io error: ".toList,[],by decide⟩
  exact transientMessage_iff.mpr (Or.inl found)

def nothingYet : CdcLoop.World Int where
  log := SnapshotLog.bare 0
  db := { start := 0 }

def unopened : Surroundings Nat Int where
  lifecycle := byTableId.owner.fresh { entries := [], moments := fun _ => {} }
  world := nothingYet

def lockedOnce : Surroundings Nat Int where
  lifecycle := { unopened.lifecycle with client := some (.derived 0), opened := true }
  world := { nothingYet with script := [{},{ raises := some (queryError locked) }] }

def boundaryAnswers : Answers Int where
  window := ⟨1,4,true,1,true,true,some 5⟩
  listedTable := some "main.orders"
  diff _ _ _ _ := []

def endsNowhere : CdcLoop.Extension Int := ⟨fun log _ _ _ => log.newest⟩

theorem lockedOnce_sparse : Sparse lockedOnce.world.script where
  few := by decide
  sound := by
    have reads : isTransientError (queryError locked) = true :=
      (queryError_transient locked).trans locked_transient
    have refusal : transientMessage "TransactionContext Error" = false :=
      bland_not_transient (bland_ofList (by decide))
    intro act member
    rcases List.mem_cons.mp member with rfl | member
    · exact ⟨fun _ no => (by cases no),refusal⟩
    · obtain rfl := List.mem_singleton.mp member
      refine ⟨?_,refusal⟩
      intro e raises
      cases raises
      exact reads

theorem transient_leaks_iff_schemaDiff :
    (Operation.schemaDiff none none).Leaks byTableId boundaryAnswers endsNowhere lockedOnce ↔
      (Operation.schemaDiff none none).Exposed byTableId boundaryAnswers lockedOnce :=
  transient_leaks_iff byTableId boundaryAnswers endsNowhere lockedOnce (.schemaDiff none none) rfl
    orders_plain lockedOnce_sparse

theorem quiet_default : Quiet ({} : CdcLifecycle.Replies Nat Registry) where
  derive _ no := by cases no
  openSink _ _ no := by cases no
  rollbackSink _ _ no := by cases no
  closeSink _ _ no := by cases no
  closeConnection _ no := by cases no
  onClosed := bland_not_transient (bland_ofList (by decide))

/-- The catalog is locked for the first query of a new client, and for no other: `open`
    raises. -/
theorem prewarm_leaks : ¬ ∀ (x : HighLevelConsumer Nat) (answers : Answers Int)
    (cdc : CdcLoop.Extension Int) (s : Surroundings Nat Int) (op : Operation Nat Int),
    x.owner.retryPolicy = .default → Plain x.platform x.config → op.Pattern s →
      ¬ op.Leaks x answers cdc s := by
  intro never
  have reads : ∀ e, some locked = some e → isTransientError e = true := by
    intro e is_
    cases is_
    exact locked_transient
  have failing : Failing 4 unopened.lifecycle.db :=
    ⟨⟨∅,by decide,fun _ _ no => absurd rfl no⟩,fun _ _ no => (by cases no)⟩
  apply never byTableId boundaryAnswers endsNowhere unopened (.enter {} (some locked)) rfl
    orders_plain ⟨quiet_default,reads,failing⟩
  apply (raisesTransient_iff (ends_enter_transient orders_plain rfl quiet_default (some locked)
    reads failing)).mpr
  exact ⟨⟨rfl,Or.inr rfl⟩,Option.some_ne_none locked⟩

end CdcTransient
