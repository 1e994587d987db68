import DucklakeCdc.ClientConnections

/-!
One consumer, one connection (`_ConsumerBase`). The lease is on a connection, so all that an
open consumer sends, itself or through the transactions of its batches, has to go to the
one it shows as `consumer.connection`, and no statement should be the first on its
connection. Opens, closes and methods come in any order, and may fail anywhere.
-/
namespace CdcPinning
open Programs CdcRetry CdcClients
variable {κ ρ : Type}

/-- `override` is `connection=`, `client` is `client=`. -/
structure Consumer (κ : Type) where
  className : String := "DMLConsumer"
  lake : Lake κ
  override : Option κ := none
  client : Option (CDCClient κ) := none

/-- A batch, with the connection it was bound to; `entered` tells during which opening. -/
structure Bound (κ : Type) where
  connection : Option κ
  entered : Nat

structure Held (κ ρ : Type) where
  client : Option (CDCClient κ)
  connection : Option κ := none
  derivedConnection : Option κ := none
  opened : Bool := false
  entered : Nat := 0
  batches : List (Bound κ) := []
  wire : Wire κ ρ := {}

def Consumer.fresh (c : Consumer κ) : Held κ ρ where
  client := c.client

abbrev Owner (κ ρ : Type) := EStateM Exc (Held κ ρ)

def speak {α : Type} (p : Speaks κ ρ α) : Owner κ ρ α :=
  within Held.wire (fun s w => { s with wire := w }) p

structure Replies where
  openSinks : Option Exc := none
  closeSinks : Option Exc := none
  closeConnection : Option Exc := none

def raiseIf (failure : Option Exc) : Owner κ ρ Unit :=
  match failure with
  | some e => throw e
  | none => pure ()

def noLakeConnection (c : Consumer κ) : Exc := .raised .typeError
  (c.className ++ " requires `lake.connection` to derive a dedicated consumer connection " ++
    "(or pass `connection=` / `client=` explicitly)")

def noCursor (c : Consumer κ) : Exc := .raised .typeError
  (c.className ++ " requires `lake.connection.cursor()` to derive a dedicated consumer connection")

def deriveConnection (c : Consumer κ) : Owner κ ρ κ :=
  match c.lake.connection, c.lake.cursor with
  | none, _ => throw (noLakeConnection c)
  | some _, none => throw (noCursor c)
  | some _, some cursor => do
    let s ← get
    set { s with wire := { s.wire with cursors := s.wire.cursors + 1 } }
    speak (answered (cursor s.wire.cursors))

def ownConnection (c : Consumer κ) : Owner κ ρ κ :=
  match c.override with
  | some connection => do
    modify fun s => { s with connection := some connection }
    pure connection
  | none => do
    let connection ← deriveConnection c
    modify fun s => { s with connection := some connection, derivedConnection := some connection }
    pure connection

def buildClient (peer : Peer ρ) (c : Consumer κ) : Owner κ ρ Unit := do
  let connection ← ownConnection c
  let client ← speak (CDCClient.init peer (pinnedConnectionLake connection c.lake.name)
    { installExtension := false })
  modify fun s => { s with client := some client }

def mirrorConnection (client : CDCClient κ) : Owner κ ρ Unit := do
  let connection ← speak (connectionForLake client.lake)
  modify fun s => { s with connection := some connection }

def resolveConnection (peer : Peer ρ) (c : Consumer κ) : Owner κ ρ Unit := do
  let s ← get
  match s.client with
  | none => buildClient peer c
  | some client => mirrorConnection client

def noClientError (c : Consumer κ) : Exc := .raised .runtimeError
  (c.className ++ " client is not initialized; use `with consumer:`")

def notOpenError (c : Consumer κ) : Exc := .raised .runtimeError
  (c.className ++ ".run() must be called inside a `with consumer:` block")

def requireClient (c : Consumer κ) : Owner κ ρ (CDCClient κ) := do
  let s ← get
  match s.client with
  | some client => pure client
  | none => throw (noClientError c)

def requireOpen (c : Consumer κ) : Owner κ ρ Unit := do
  let s ← get
  if s.opened then pure () else throw (notOpenError c)

/-- A method that goes through `self._require_client()`. -/
def request (peer : Peer ρ) (c : Consumer κ) (p : Requests ρ) : Owner κ ρ Unit := do
  let client ← requireClient c
  speak (p.run (queryOnLake peer client.lake))

def closeDerivedConnection (r : Replies) : Owner κ ρ Unit := do
  let s ← get
  match s.derivedConnection with
  | none => pure ()
  | some _ => do
    set { s with derivedConnection := none }
    tryExcept Exc.isException (raiseIf r.closeConnection) fun _ => pure ()

def attempt (peer : Peer ρ) (c : Consumer κ) (setup : Requests ρ) (r : Replies) :
    Owner κ ρ Unit := do
  request peer c setup
  raiseIf r.openSinks
  modify fun s => { s with opened := true }

def enter (peer : Peer ρ) (c : Consumer κ) (setup : Requests ρ) (r : Replies) :
    Owner κ ρ Unit := do
  modify fun s => { s with entered := s.entered + 1 }
  resolveConnection peer c
  tryCatch (attempt peer c setup r) fun e => do
    raiseIf r.closeSinks
    closeDerivedConnection r
    throw e

def exit (r : Replies) : Owner κ ρ Unit := do
  modify fun s => { s with opened := false }
  raiseIf r.closeSinks
  closeDerivedConnection r

def heartbeat (peer : Peer ρ) (c : Consumer κ) (p : Requests ρ) : Owner κ ρ Unit := do
  let s ← get
  match s.client with
  | none => pure ()
  | some _ => request peer c p

def receive (peer : Peer ρ) (c : Consumer κ) (p : Requests ρ) : Owner κ ρ Unit := do
  requireOpen c
  request peer c p
  modify fun s => { s with batches := s.batches ++ [⟨s.connection,s.entered⟩] }

def unboundError : Exc := .raised .runtimeError
  ("batch.transaction() requires the batch to be created by an open consumer; " ++
    "this batch has no bound connection")

def transact (peer : Peer ρ) (b : Bound κ) (p : Requests ρ) : Owner κ ρ Unit :=
  match b.connection with
  | none => throw unboundError
  | some connection => speak (p.run (execute peer (.connection connection)))

inductive Call (ρ : Type) where
  | opens (setup : Requests ρ) (r : Replies)
  | closes (r : Replies)
  | asks (p : Requests ρ)
  | commits (p : Requests ρ)
  | heartbeats (p : Requests ρ)
  | receives (p : Requests ρ)
  | transacts (batch : Nat) (p : Requests ρ)

def Call.run (peer : Peer ρ) (c : Consumer κ) : Call ρ → Owner κ ρ Unit
  | .opens setup r => enter peer c setup r
  | .closes r => exit r
  | .asks p => do
    requireOpen c
    request peer c p
  | .commits p => request peer c p
  | .heartbeats p => heartbeat peer c p
  | .receives p => receive peer c p
  | .transacts batch p => do
    let s ← get
    match s.batches[batch]? with
    | none => pure ()
    | some b => transact peer b p

def step (peer : Peer ρ) (c : Consumer κ) (s : Held κ ρ) (call : Call ρ) : Held κ ρ :=
  finalState (call.run peer c) s

def after (peer : Peer ρ) (c : Consumer κ) (calls : List (Call ρ)) : Held κ ρ :=
  calls.foldl (step peer c) c.fresh

/-! What keeps an invariant -/
section
variable {peer : Peer ρ} {c : Consumer κ} {inv ready : Held κ ρ → Prop} {s : Held κ ρ}

theorem keeps_request (p : Requests ρ)
    (queries : ∀ client s sql, inv s → s.client = some client →
      Ends (queryOnLake peer client.lake sql) s.wire (fun _ w => inv { s with wire := w })
        (fun _ w => inv { s with wire := w })) : Keeps inv (request peer c p) := by
  intro s h
  rw [request, ends_bind, requireClient, ends_bind, ends_get]
  cases there : s.client with
  | none => exact h
  | some client =>
    rw [ends_pure, speak, ends_within]
    have each : ∀ sql, Keeps (fun w => inv { s with wire := w }) (queryOnLake peer client.lake sql) :=
      fun sql w hw => queries client { s with wire := w } sql hw there
    exact keeps_requests each p s.wire h

theorem keeps_raiseIf (failure : Option Exc) : Keeps inv (raiseIf failure) := by
  cases failure with
  | none => exact leads_pure ()
  | some e => exact keeps_throw e

/-- What an invariant needs, where `ready` holds between resolving the connection and the end
    of `__enter__`, and while the consumer is open. -/
structure Invariant (peer : Peer ρ) (c : Consumer κ) (inv ready : Held κ ρ → Prop) : Prop where
  inv_of_ready : ∀ s, ready s → inv s
  ready_of_opened : ∀ s, inv s → s.opened = true → ready s
  resolves : ∀ s, inv s → Ends (resolveConnection peer c) { s with entered := s.entered + 1 }
    (fun _ => ready) (fun _ => inv)
  queries : ∀ client s sql, inv s → s.client = some client →
    Ends (queryOnLake peer client.lake sql) s.wire (fun _ w => inv { s with wire := w })
      (fun _ w => inv { s with wire := w })
  readyQueries : ∀ client s sql, ready s → s.client = some client →
    Ends (queryOnLake peer client.lake sql) s.wire (fun _ w => ready { s with wire := w })
      (fun _ w => ready { s with wire := w })
  opens : ∀ s, ready s → inv { s with opened := true }
  closes : ∀ s, inv s → inv { s with opened := false }
  releases : ∀ s, inv s → inv { s with derivedConnection := none }
  receives : ∀ s, ready s → inv { s with batches := s.batches ++ [⟨s.connection,s.entered⟩] }

theorem keeps_closeDerivedConnection (kept : Invariant peer c inv ready) (r : Replies) :
    Keeps inv (closeDerivedConnection r) := by
  intro s h
  rw [closeDerivedConnection, ends_bind, ends_get]
  cases s.derivedConnection with
  | none => exact h
  | some connection =>
    rw [ends_bind, ends_set, ends_tryExcept]
    refine ends_mono (keeps_raiseIf r.closeConnection _ (kept.releases s h)) (fun _ _ h => h) ?_
    intro e u hu
    split
    · exact hu
    · exact hu

theorem keeps_opening (kept : Invariant peer c inv ready) (setup : Requests ρ) (r : Replies)
    (h : ready s) :
    Ends (tryCatch (attempt peer c setup r) fun e => do
      raiseIf r.closeSinks
      closeDerivedConnection r
      throw e) s (fun _ => inv) (fun _ => inv) := by
  rw [ends_tryCatch]
  have tried : Ends (attempt peer c setup r) s (fun _ => inv) (fun _ => inv) := by
    rw [attempt, ends_bind]
    refine ends_mono (keeps_request setup kept.readyQueries s h) ?_
      (fun _ v hv => kept.inv_of_ready v hv)
    intro _ v hv
    rw [ends_bind]
    exact ends_mono (keeps_raiseIf r.openSinks v hv) (fun _ x hx => kept.opens x hx)
      (fun _ x hx => kept.inv_of_ready x hx)
  refine ends_mono tried (fun _ _ hv => hv) ?_
  intro e v hv
  rw [ends_bind]
  refine ends_mono (keeps_raiseIf r.closeSinks v hv) ?_ (fun _ _ hx => hx)
  intro _ x hx
  rw [ends_bind]
  exact ends_mono (keeps_closeDerivedConnection kept r x hx) (fun _ _ hy => hy) (fun _ _ hy => hy)

theorem keeps_enter (kept : Invariant peer c inv ready) (setup : Requests ρ) (r : Replies) :
    Keeps inv (enter peer c setup r) := by
  intro s h
  rw [enter, ends_bind, ends_modify, ends_bind]
  exact ends_mono (kept.resolves s h) (fun _ _ hu => keeps_opening kept setup r hu)
    (fun _ _ hu => hu)

theorem keeps_exit (kept : Invariant peer c inv ready) (r : Replies) : Keeps inv (exit r) := by
  intro s h
  rw [exit, ends_bind, ends_modify, ends_bind]
  exact ends_mono (keeps_raiseIf r.closeSinks _ (kept.closes s h))
    (fun _ u hu => keeps_closeDerivedConnection kept r u hu) (fun _ _ hu => hu)

theorem keeps_requireOpen : Keeps inv (requireOpen c) := by
  intro s h
  rw [requireOpen, ends_bind, ends_get, ends_ite]
  exact ⟨fun _ => h,fun _ => h⟩

theorem keeps_receive (kept : Invariant peer c inv ready) (p : Requests ρ) :
    Keeps inv (receive peer c p) := by
  intro s h
  rw [receive, ends_bind, requireOpen, ends_bind, ends_get, ends_ite]
  refine ⟨fun opened => ?_,fun _ => h⟩
  rw [ends_pure, ends_bind]
  refine ends_mono (keeps_request p kept.readyQueries s (kept.ready_of_opened s h opened)) ?_
    (fun _ u hu => kept.inv_of_ready u hu)
  exact fun _ u hu => kept.receives u hu

theorem keeps_call (kept : Invariant peer c inv ready) (call : Call ρ)
    (transacts : ∀ batch p, call = .transacts batch p → ∀ s b, inv s → s.batches[batch]? = some b →
      Ends (transact peer b p) s (fun _ => inv) (fun _ => inv)) :
    Keeps inv (call.run peer c) := by
  cases call with
  | opens setup r => exact keeps_enter kept setup r
  | closes r => exact keeps_exit kept r
  | asks p => exact leads_bind keeps_requireOpen fun _ => keeps_request p kept.queries
  | commits p => exact keeps_request p kept.queries
  | heartbeats p =>
    intro s h
    rw [Call.run, heartbeat, ends_bind, ends_get]
    cases s.client with
    | none => exact h
    | some client => exact keeps_request p kept.queries s h
  | receives p => exact keeps_receive kept p
  | transacts batch p =>
    intro s h
    rw [Call.run, ends_bind, ends_get]
    cases there : s.batches[batch]? with
    | none => exact h
    | some b => exact transacts batch p rfl s b h there

end

def Wired (s : Held κ ρ) : Prop :=
  ∃ client k, s.client = some client ∧ s.connection = some k ∧ client.lake.Gives k

structure Pins (s : Held κ ρ) : Prop where
  fixed : ∀ client, s.client = some client → client.lake.Fixed
  wired : s.opened = true → Wired s
  batches : ∀ b ∈ s.batches, b.entered ≤ s.entered ∧ (b.entered = s.entered → b.connection = s.connection)

def Resolved (s : Held κ ρ) : Prop := Pins s ∧ Wired s

section
variable {peer : Peer ρ} {c : Consumer κ} {s : Held κ ρ}

theorem pins_wire (w : Wire κ ρ) (h : Pins s) : Pins { s with wire := w } :=
  ⟨h.fixed,h.wired,h.batches⟩

structure Begun (s : Held κ ρ) : Prop where
  fixed : ∀ client, s.client = some client → client.lake.Fixed
  wired : s.opened = true → Wired s
  batches : ∀ b ∈ s.batches, b.entered < s.entered

theorem begun_of_pins (h : Pins s) : Begun { s with entered := s.entered + 1 } :=
  ⟨h.fixed,h.wired,fun b member => Nat.lt_succ_of_le (h.batches b member).1⟩

theorem pins_of_begun {connection : Option κ} (h : Begun s)
    (shown : s.opened = true → Wired { s with connection := connection }) :
    Pins { s with connection := connection } where
  fixed := h.fixed
  wired := shown
  batches b member := by
    have older := h.batches b member
    exact ⟨older.le,fun same => absurd same older.ne⟩

theorem ends_ownConnection {ok : κ → Held κ ρ → Prop} {err : Exc → Held κ ρ → Prop}
    (given : ∀ k derived w, w.sent = s.wire.sent →
      ok k { s with connection := some k, derivedConnection := derived, wire := w })
    (failed : ∀ e w, w.sent = s.wire.sent → err e { s with wire := w }) :
    Ends (ownConnection c) s ok err := by
  unfold ownConnection
  cases c.override with
  | some connection => exact given connection s.derivedConnection s.wire rfl
  | none =>
    rw [ends_bind, deriveConnection]
    split
    · exact failed _ s.wire rfl
    · exact failed _ s.wire rfl
    · rw [ends_bind, ends_get, ends_bind, ends_set, speak, ends_within]
      refine ends_answered ?_ ?_
      · exact fun k _ => given k (some k) _ rfl
      · exact fun e _ => failed e _ rfl

theorem ends_speak {α : Type} {p : Speaks κ ρ α} {ok : α → Held κ ρ → Prop}
    {err : Exc → Held κ ρ → Prop} (h : Ends p s.wire (fun a w => ok a { s with wire := w })
      (fun e w => err e { s with wire := w })) : Ends (speak p) s ok err := by
  rwa [speak, ends_within]

theorem closed_of_begun (h : Begun s) (none_ : s.client = none) : s.opened = false := by
  cases opened : s.opened with
  | false => rfl
  | true =>
    obtain ⟨client,_,some_,_⟩ := h.wired opened
    rw [none_] at some_
    cases some_

theorem resolves_pins (h : Begun s) :
    Ends (resolveConnection peer c) s (fun _ => Resolved) (fun _ => Pins) := by
  rw [resolveConnection, ends_bind, ends_get]
  cases there : s.client with
  | none =>
    have closed : ∀ {P : Prop}, s.opened = true → P := by
      intro P opened
      rw [closed_of_begun h there] at opened
      cases opened
    rw [buildClient, ends_bind]
    refine ends_ownConnection ?_ ?_
    · intro k derived w _
      have begun : Pins { s with connection := some k } := pins_of_begun h closed
      rw [ends_bind]
      refine ends_speak (ends_mono (ends_init rfl rfl rfl) ?_ ?_)
      · rintro client u ⟨same,_⟩
        rw [ends_modify]
        have fixed : client.lake.Fixed := by
          rw [same]
          exact fixed_pinned k _
        refine ⟨⟨?_,closed,begun.batches⟩,client,k,rfl,rfl,?_⟩
        · intro other given
          obtain rfl := Option.some.inj given
          exact fixed
        · rw [same]
          exact gives_own rfl
      · intro e u _
        exact ⟨begun.fixed,closed,begun.batches⟩
    · intro e w _
      exact pins_wire w (pins_of_begun h h.wired)
  | some client =>
    change Ends (mirrorConnection client) s _ _
    rw [mirrorConnection, ends_bind]
    refine ends_speak (ends_mono ends_connectionForLake ?_ ?_)
    · rintro k u ⟨given,_⟩
      have gives := gives_of_fixed (h.fixed client there) given
      have shown : Wired { s with connection := some k } := ⟨client,k,there,rfl,gives⟩
      exact ⟨pins_wire u (pins_of_begun h fun _ => shown),shown⟩
    · intro e u _
      exact pins_wire u (pins_of_begun h h.wired)

theorem invariant_pins : Invariant peer c (Pins (κ := κ) (ρ := ρ)) Resolved where
  inv_of_ready _ h := h.1
  ready_of_opened _ h opened := ⟨h,h.wired opened⟩
  resolves _ h := resolves_pins (begun_of_pins h)
  queries _ s _ h _ := ends_mono (ends_total _ s.wire) (fun _ w _ => pins_wire w h)
    (fun _ w _ => pins_wire w h)
  readyQueries _ s _ h _ := ends_mono (ends_total _ s.wire) (fun _ w _ => ⟨pins_wire w h.1,h.2⟩)
    (fun _ w _ => ⟨pins_wire w h.1,h.2⟩)
  opens _ h := ⟨h.1.fixed,fun _ => h.2,h.1.batches⟩
  closes _ h := ⟨h.fixed,fun no => absurd no Bool.false_ne_true,h.batches⟩
  releases _ h := ⟨h.fixed,h.wired,h.batches⟩
  receives _ h := by
    refine ⟨h.1.fixed,h.1.wired,?_⟩
    intro b member
    rcases List.mem_append.mp member with old | new
    · exact h.1.batches b old
    · obtain rfl := List.mem_singleton.mp new
      exact ⟨Nat.le_refl _,fun _ => rfl⟩

theorem pins_step (h : Pins s) (call : Call ρ) : Pins (step peer c s call) := by
  refine ends_final _ (keeps_call invariant_pins call ?_ s h)
  intro batch p _ t b ht _
  unfold transact
  cases b.connection with
  | none => exact ht
  | some k =>
    exact ends_speak (ends_mono (ends_total _ t.wire) (fun _ w _ => pins_wire w ht)
      (fun _ w _ => pins_wire w ht))

/-- A `client=` whose lake never gives two connections. -/
def Steady (c : Consumer κ) : Prop := ∀ client, c.client = some client → client.lake.Fixed

theorem pins_after (steady : Steady c) (calls : List (Call ρ)) : Pins (after peer c calls) := by
  have fresh : Pins (c.fresh : Held κ ρ) := ⟨steady,fun no => absurd no Bool.false_ne_true,fun _ no => nomatch no⟩
  induction calls using List.reverseRecOn with
  | nil => exact fresh
  | append_singleton calls call ih =>
    rw [after, List.foldl_append]
    exact pins_step ih call

end

def said (peer : Peer ρ) (c : Consumer κ) (s : Held κ ρ) (call : Call ρ) : List (Sent κ ρ) :=
  (step peer c s call).wire.sent.drop s.wire.sent.length

/-- Not a transaction of a batch from an earlier opening. -/
def Current (s : Held κ ρ) : Call ρ → Prop
  | .transacts batch _ => ∀ b, s.batches[batch]? = some b → b.entered = s.entered
  | _ => True

/-- Whatever happened before: what an open consumer sends goes to the connection it shows. -/
def Pinned (c : Consumer κ) : Prop :=
  ∀ (ρ : Type) (peer : Peer ρ) (calls : List (Call ρ)),
    let s := after peer c calls
    s.opened = true → ∃ k, s.connection = some k ∧
      ∀ call, Current s call → ∀ sent ∈ said peer c s call, sent.handle = .connection k

/-- What an opening sends, the prewarm query and the setup, goes to the connection that it
    leaves the consumer with. -/
def OpensPinned (c : Consumer κ) : Prop :=
  ∀ (ρ : Type) (peer : Peer ρ) (calls : List (Call ρ)) (setup : Requests ρ) (r : Replies),
    let s := after peer c calls
    ∀ sent ∈ said peer c s (.opens setup r),
      ∃ k, (step peer c s (.opens setup r)).connection = some k ∧ sent.handle = .connection k

section
variable {peer : Peer ρ} {c : Consumer κ} {s t : Held κ ρ} {client : CDCClient κ} {k : κ}

def Only (k : κ) (w : Wire κ ρ) (client : CDCClient κ) (s : Held κ ρ) : Prop :=
  Adds (fun sent => sent.handle = .connection k) w s.wire ∧ s.client = some client ∧
    s.connection = some k

theorem adds_one {w w' : Wire κ ρ} {sql : List Char} {answer : Except Exc ρ}
    (sent : w'.sent = w.sent ++ [⟨.connection k,sql,answer⟩]) :
    Adds (fun sent => sent.handle = .connection k) w w' :=
  ⟨_,sent,by simp⟩

theorem keeps_query (gives : client.lake.Gives k) (w : Wire κ ρ) (sql : List Char) :
    Ends (queryOnLake peer client.lake sql) w
      (fun _ w' => Adds (fun sent => sent.handle = .connection k) w w')
      (fun _ w' => Adds (fun sent => sent.handle = .connection k) w w') := by
  refine ends_mono ends_queryOnLake ?_ ?_
  · rintro r w' ⟨k',answer,given,sent,_⟩
    obtain rfl := gives _ _ given
    exact adds_one sent
  · rintro e w' ⟨_,⟨_,still⟩ | ⟨k',answer,given,sent⟩⟩
    · exact adds_refl still
    · obtain rfl := gives _ _ given
      exact adds_one sent

theorem keeps_only (gives : client.lake.Gives k) (w : Wire κ ρ) (other : CDCClient κ) (s : Held κ ρ)
    (sql : List Char) (h : Only k w client s) (given : s.client = some other) :
    Ends (queryOnLake peer other.lake sql) s.wire (fun _ u => Only k w client { s with wire := u })
      (fun _ u => Only k w client { s with wire := u }) := by
  obtain rfl := Option.some.inj (h.2.1.symm.trans given)
  exact ends_mono (keeps_query gives s.wire sql) (fun _ u more => ⟨adds_trans h.1 more,h.2⟩)
    (fun _ u more => ⟨adds_trans h.1 more,h.2⟩)

theorem invariant_only (gives : client.lake.Gives k) (w : Wire κ ρ) :
    Invariant peer c (Only k w client) (Only k w client) where
  inv_of_ready _ h := h
  ready_of_opened _ h _ := h
  resolves s h := by
    rw [resolveConnection, ends_bind, ends_get]
    have there := h.2.1
    simp only [there]
    rw [mirrorConnection, ends_bind]
    refine ends_speak (ends_mono ends_connectionForLake ?_ ?_)
    · rintro k' u ⟨given,still,_⟩
      obtain rfl := gives _ _ given
      exact ⟨adds_trans h.1 (adds_refl still),rfl,rfl⟩
    · rintro e u ⟨_,still,_⟩
      exact ⟨adds_trans h.1 (adds_refl still),rfl,h.2.2⟩
  queries := keeps_only gives w
  readyQueries := keeps_only gives w
  opens _ h := h
  closes _ h := h
  releases _ h := h
  receives _ h := h

theorem said_pinned (pins : Pins s) (opened : s.opened = true) :
    ∃ k, s.connection = some k ∧
      ∀ call, Current s call → ∀ sent ∈ said peer c s call, sent.handle = .connection k := by
  obtain ⟨client,k,there,shown,gives⟩ := pins.wired opened
  refine ⟨k,shown,?_⟩
  intro call current sent member
  have start : Only k s.wire client s := ⟨adds_refl rfl,there,shown⟩
  have only : Only k s.wire client (step peer c s call) := by
    cases call with
    | transacts batch p =>
      refine ends_final (Only k s.wire client) ?_
      rw [Call.run, ends_bind, ends_get]
      cases given : s.batches[batch]? with
      | none => exact start
      | some b =>
        have bound := (pins.batches b (List.mem_of_getElem? given)).2 (current b given)
        change Ends (transact peer b p) s _ _
        rw [transact, bound, shown]
        refine ends_speak ?_
        have each : ∀ sql, Keeps (Adds (fun sent => sent.handle = .connection k) s.wire)
            (execute peer (.connection k) sql) := by
          intro sql w more
          refine ends_mono ends_execute ?_ ?_
          · exact fun r w' added => adds_trans more (adds_one added.1)
          · exact fun e w' added => adds_trans more (adds_one added.1)
        exact ends_mono (keeps_requests each p s.wire (adds_refl rfl))
          (fun _ w more => ⟨more,there,shown⟩) (fun _ w more => ⟨more,there,shown⟩)
    | _ => exact ends_final _ (keeps_call (invariant_only gives s.wire) _ (by simp) s start)
  obtain ⟨more,sent_,all⟩ := only.1
  rw [said, sent_, List.drop_left] at member
  exact all sent member

def Shows (s t : Held κ ρ) : Prop :=
  Adds (fun sent => ∃ k, t.connection = some k ∧ sent.handle = .connection k) s.wire t.wire

theorem shows_of_only (only : Only k s.wire client t) : Shows s t := by
  obtain ⟨⟨more,sent_,all⟩,_,shown⟩ := only
  exact ⟨more,sent_,fun sent member => ⟨k,shown,all sent member⟩⟩

theorem resolves_only (pins : Pins s) :
    Ends (resolveConnection peer c) s
      (fun _ u => ∃ client k, client.lake.Gives k ∧ Only k s.wire client u) (fun _ => Shows s) := by
  rw [resolveConnection, ends_bind, ends_get]
  cases there : s.client with
  | none =>
    rw [buildClient, ends_bind]
    refine ends_ownConnection ?_ (fun e w still => adds_refl still)
    intro k derived w still
    rw [ends_bind]
    refine ends_speak (ends_mono (ends_init rfl rfl rfl) ?_ ?_)
    · rintro client u ⟨same,r,added⟩
      rw [ends_modify]
      exact ⟨client,k,same ▸ gives_own rfl,adds_trans (adds_refl still) (adds_one added),rfl,rfl⟩
    · rintro e u ⟨answer,added⟩
      exact adds_trans (adds_refl still) ⟨_,added,by simp⟩
  | some client =>
    change Ends (mirrorConnection client) s _ _
    rw [mirrorConnection, ends_bind]
    refine ends_speak (ends_mono ends_connectionForLake ?_ ?_)
    · rintro k u ⟨given,still,_⟩
      exact ⟨client,k,gives_of_fixed (pins.fixed client there) given,adds_refl still,there,rfl⟩
    · exact fun e u facts => adds_refl facts.2.1

theorem said_opening (pins : Pins s) (setup : Requests ρ) (r : Replies) :
    ∀ sent ∈ said peer c s (.opens setup r),
      ∃ k, (step peer c s (.opens setup r)).connection = some k ∧ sent.handle = .connection k := by
  have shows_ : Shows s (step peer c s (.opens setup r)) := by
    refine ends_final (Shows s) ?_
    rw [Call.run, enter, ends_bind, ends_modify, ends_bind]
    have begun : Pins { s with entered := s.entered + 1 } := by
      refine ⟨pins.fixed,pins.wired,fun b member => ?_⟩
      have older := (pins.batches b member).1
      exact ⟨older.trans (Nat.le_succ _),fun same => absurd (same ▸ older) (Nat.not_succ_le_self _)⟩
    refine ends_mono (resolves_only begun) ?_ (fun _ _ h => h)
    rintro _ u ⟨client,k,gives,only⟩
    exact ends_mono (keeps_opening (invariant_only gives s.wire) setup r only)
      (fun _ _ h => shows_of_only h) (fun _ _ h => shows_of_only h)
  obtain ⟨more,sent_,all⟩ := shows_
  intro sent member
  rw [said, sent_, List.drop_left] at member
  exact all sent member

end

def asking : Nat → Requests ρ
  | 0 => .ends none
  | n + 1 => .query [] fun _ => asking n

section
variable {peer : Peer ρ} {c : Consumer κ} {s : Held κ ρ} {client : CDCClient κ} {lake : Lake κ}

theorem ends_asking (none_ : lake.connection = none) (raw : lake.rawConnection ≠ none) (n : Nat)
    (w : Wire κ ρ) :
    Ends ((asking n).run (queryOnLake peer lake)) w
      (fun _ w' => w'.rawCalls = w.rawCalls + n) (fun _ _ => False) := by
  induction n generalizing w with
  | zero => exact rfl
  | succ n ih =>
    have sent : Ends (queryOnLake peer lake []) w (fun _ w' => w'.rawCalls = w.rawCalls + 1)
        (fun _ w' => w'.rawCalls = w.rawCalls + 1) := by
      refine ends_mono ends_queryOnLake ?_ ?_
      · rintro r w' ⟨_,_,_,_,counted⟩
        exact counted none_
      · rintro e w' ⟨counted,_⟩
        exact counted none_ raw
    have onward : ∀ w', w'.rawCalls = w.rawCalls + 1 →
        Ends ((asking n).run (queryOnLake peer lake)) w'
          (fun _ w' => w'.rawCalls = w.rawCalls + (n + 1)) (fun _ _ => False) := by
      intro w' counted
      refine ends_mono (ih w') ?_ (fun _ _ no => no)
      intro _ w'' more
      omega
    rw [asking, ends_query]
    exact ends_mono sent (fun _ => onward) (fun _ => onward)

def Asked (client : CDCClient κ) (n : Nat) (s : Held κ ρ) : Prop :=
  s.client = some client ∧ s.wire.rawCalls = n

theorem ends_request_asking (none_ : client.lake.connection = none)
    (raw : client.lake.rawConnection ≠ none) {m : Nat} (n : Nat) (h : Asked client m s) :
    Ends (request peer c (asking n)) s (fun _ t => Asked client (m + n) t ∧ t.connection = s.connection)
      (fun _ _ => False) := by
  rw [request, ends_bind, requireClient, ends_bind, ends_get]
  have there := h.1
  simp only [there]
  refine ends_speak (ends_mono (ends_asking none_ raw n s.wire) ?_ (fun _ _ no => no))
  intro _ w counted
  exact ⟨⟨there,by rw [counted, h.2]⟩,rfl⟩

theorem ends_enter_asking (none_ : client.lake.connection = none)
    (raw : client.lake.rawConnection ≠ none) {m : Nat} {a : κ} (n : Nat)
    (given : client.lake.connectionAt m = some a) (h : Asked client m s) :
    Ends (enter peer c (asking n) {}) s
      (fun _ t => Asked client (m + 1 + n) t ∧ t.opened = true ∧ t.connection = some a)
      (fun _ _ => False) := by
  have there := h.1
  rw [enter, ends_bind, ends_modify, ends_bind, resolveConnection, ends_bind, ends_get]
  simp only [there]
  rw [mirrorConnection, ends_bind]
  refine ends_speak (ends_mono ends_connectionForLake ?_ ?_)
  · rintro k w ⟨given',_,counted⟩
    have at_ : client.lake.connectionAt s.wire.rawCalls = some k := given'
    rw [h.2, given] at at_
    obtain rfl := Option.some.inj at_
    have calls : w.rawCalls = m + 1 := (counted none_).trans (congrArg (· + 1) h.2)
    rw [ends_modify, ends_tryCatch, attempt, ends_bind]
    have here : Asked client (m + 1) { s with
        client := some client, connection := some a, entered := s.entered + 1, wire := w } :=
      ⟨rfl,calls⟩
    refine ends_mono (ends_request_asking none_ raw n here) ?_ (fun _ _ no => no.elim)
    rintro _ u ⟨asked,shown⟩
    exact ⟨asked,rfl,shown⟩
  · rintro e w ⟨no,_⟩
    have at_ : client.lake.connectionAt s.wire.rawCalls = none := no
    rw [h.2, given] at at_
    cases at_

theorem said_one {b : κ} (opened : s.opened = true) (there : s.client = some client)
    (given : client.lake.connectionAt s.wire.rawCalls = some b) :
    ∃ sent ∈ said peer c s (.asks (.query [] fun _ => .ends none)), sent.handle = .connection b := by
  have added : ∃ answer, (step peer c s (.asks (.query [] fun _ => .ends none))).wire.sent =
      s.wire.sent ++ [⟨.connection b,[],answer⟩] := by
    refine ends_final (fun t : Held κ ρ => ∃ answer,
      t.wire.sent = s.wire.sent ++ [⟨.connection b,[],answer⟩]) ?_
    rw [Call.run, ends_bind, requireOpen, ends_bind, ends_get, ends_ite]
    refine ⟨fun _ => ?_,fun no => absurd opened no⟩
    rw [ends_pure, request, ends_bind, requireClient, ends_bind, ends_get]
    simp only [there]
    refine ends_speak ?_
    rw [ends_query]
    refine ends_mono ends_queryOnLake ?_ ?_
    · rintro r w ⟨k,answer,given',added,_⟩
      obtain rfl := Option.some.inj (given.symm.trans given')
      exact ⟨answer,added⟩
    · rintro e w ⟨_,⟨no,_⟩ | ⟨k,answer,given',added⟩⟩
      · rw [given] at no
        cases no
      · obtain rfl := Option.some.inj (given.symm.trans given')
        exact ⟨answer,added⟩
  obtain ⟨answer,added⟩ := added
  refine ⟨⟨.connection b,[],answer⟩,?_,rfl⟩
  rw [said, added, List.drop_left]
  exact List.mem_singleton_self _

end

def agreeable : Peer Unit where
  answer _ := .ok ()
  fetchone _ := some (.ok (some ["0.4.0"]))
  repr text := text

theorem same_of_pinned {c : Consumer κ} {client : CDCClient κ} (pinned : Pinned c)
    (there : c.client = some client) {m n : Nat} {a b : κ} (less : m < n)
    (first : client.lake.connectionAt m = some a) (second : client.lake.connectionAt n = some b) :
    a = b := by
  cases own : client.lake.connection with
  | some k =>
    rw [connectionAt_own own] at first second
    exact Option.some.inj (first.symm.trans second)
  | none =>
    have raw : client.lake.rawConnection ≠ none := by
      intro no
      rw [Lake.connectionAt, own, no] at first
      cases first
    let calls : List (Call Unit) := [.commits (asking m),.opens (asking (n - m - 1)) {}]
    have begun : Asked client m (step agreeable c c.fresh (.commits (asking m))) := by
      have fresh : Asked client 0 (c.fresh : Held κ Unit) := ⟨there,rfl⟩
      refine ends_final _ (ends_mono (ends_request_asking own raw m fresh) ?_ (fun _ _ no => no.elim))
      rintro _ t ⟨asked,_⟩
      rwa [Nat.zero_add] at asked
    have opened : Asked client n (after agreeable c calls) ∧ (after agreeable c calls).opened = true ∧
        (after agreeable c calls).connection = some a := by
      refine ends_final (fun t => Asked client n t ∧ t.opened = true ∧ t.connection = some a)
        (ends_mono (ends_enter_asking own raw (n - m - 1) first begun) ?_ (fun _ _ no => no.elim))
      rintro _ t ⟨asked,rest⟩
      have calls : m + 1 + (n - m - 1) = n := by omega
      rw [calls] at asked
      exact ⟨asked,rest⟩
    obtain ⟨⟨here,count⟩,open_,shown⟩ := opened
    obtain ⟨k,shown',all⟩ := pinned Unit agreeable calls open_
    obtain rfl := Option.some.inj (shown.symm.trans shown')
    rw [← count] at second
    let one : Call Unit := .asks (.query [] fun _ => .ends none)
    obtain ⟨sent,member,handle⟩ : ∃ sent ∈ said agreeable c (after agreeable c calls) one,
        sent.handle = .connection b := said_one open_ here second
    have same := all one trivial sent member
    exact Handle.connection.inj (same.symm.trans handle)

/-- A consumer speaks on one connection while it is open, the one it shows, whatever opens,
    closes and failures went before; with a `client=`, exactly if the lake of that client
    never gives two connections. Each opening already speaks on the connection it resolved. -/
theorem pinned_iff_steady (c : Consumer κ) : (Pinned c ↔ Steady c) ∧ (Steady c → OpensPinned c) := by
  refine ⟨⟨?_,?_⟩,fun steady _ peer calls => said_opening (pins_after steady calls)⟩
  · intro pinned client there m n a b first second
    rcases lt_trichotomy m n with less | rfl | more
    · exact same_of_pinned pinned there less first second
    · exact Option.some.inj (first.symm.trans second)
    · exact (same_of_pinned pinned there more second first).symm
  · intro steady ρ peer calls
    exact fun opened => said_pinned (pins_after steady calls) opened

def Warm (k : κ) (sent : List (Sent κ ρ)) : Prop := ∃ r, ⟨.connection k,versionSql,.ok r⟩ ∈ sent

/-- All but the prewarm query found its connection warm. -/
def Warmed (sent : List (Sent κ ρ)) : Prop :=
  ∀ before one after, sent = before ++ one :: after → one.sql ≠ versionSql →
    ∃ k, one.handle = .connection k ∧ Warm k before

structure Warms (s : Held κ ρ) : Prop where
  log : Warmed s.wire.sent
  client : ∀ client, s.client = some client →
    ∃ k, client.lake.connection = some k ∧ Warm k s.wire.sent
  opened : s.opened = true → s.client ≠ none ∧ ∃ k, s.connection = some k ∧ Warm k s.wire.sent
  batches : ∀ b ∈ s.batches, ∀ k, b.connection = some k → Warm k s.wire.sent

def Ready (s : Held κ ρ) : Prop :=
  Warms s ∧ s.client ≠ none ∧ ∃ k, s.connection = some k ∧ Warm k s.wire.sent

section
variable {peer : Peer ρ} {c : Consumer κ} {s : Held κ ρ} {w : Wire κ ρ} {k : κ}
  {sent : List (Sent κ ρ)} {one : Sent κ ρ}

theorem warm_snoc (warm : Warm k sent) (one : Sent κ ρ) : Warm k (sent ++ [one]) := by
  obtain ⟨r,member⟩ := warm
  exact ⟨r,List.mem_append_left _ member⟩

theorem warmed_snoc (warmed : Warmed sent)
    (next : one.sql ≠ versionSql → ∃ k, one.handle = .connection k ∧ Warm k sent) :
    Warmed (sent ++ [one]) := by
  intro before other after cut cold
  rcases List.eq_nil_or_concat after with rfl | ⟨rest,last,rfl⟩
  · obtain ⟨rfl,same⟩ := List.append_inj' cut rfl
    cases same
    exact next cold
  · have cut' : sent ++ [one] = (before ++ other :: rest) ++ [last] := by
      rw [cut]
      simp
    obtain ⟨rfl,_⟩ := List.append_inj' cut' rfl
    exact warmed before other rest rfl cold

theorem warms_snoc (h : Warms s) (added : w.sent = s.wire.sent ++ [one])
    (next : one.sql ≠ versionSql → ∃ k, one.handle = .connection k ∧ Warm k s.wire.sent) :
    Warms { s with wire := w } := by
  have still : ∀ k, Warm k s.wire.sent → Warm k w.sent := by
    intro k warm
    rw [added]
    exact warm_snoc warm one
  refine ⟨?_,?_,?_,?_⟩
  · have log := warmed_snoc h.log next
    rwa [← added] at log
  · intro client there
    obtain ⟨k,own,warm⟩ := h.client client there
    exact ⟨k,own,still k warm⟩
  · intro opened
    obtain ⟨some_,k,shown,warm⟩ := h.opened opened
    exact ⟨some_,k,shown,still k warm⟩
  · exact fun b member k bound => still k (h.batches b member k bound)

theorem ready_snoc (h : Ready s) (added : w.sent = s.wire.sent ++ [one])
    (next : one.sql ≠ versionSql → ∃ k, one.handle = .connection k ∧ Warm k s.wire.sent) :
    Ready { s with wire := w } := by
  obtain ⟨warms,some_,k,shown,warm⟩ := h
  refine ⟨warms_snoc warms added next,some_,k,shown,?_⟩
  rw [added]
  exact warm_snoc warm one

theorem warms_same (h : Warms s) (still : w.sent = s.wire.sent) : Warms { s with wire := w } := by
  obtain ⟨log,client,opened,batches⟩ := h
  rw [← still] at log client opened batches
  exact ⟨log,client,opened,batches⟩

theorem ready_same (h : Ready s) (still : w.sent = s.wire.sent) : Ready { s with wire := w } := by
  obtain ⟨warms,some_,k,shown,warm⟩ := h
  refine ⟨warms_same warms still,some_,k,shown,?_⟩
  rwa [still]

theorem ends_warm_query {inv : Held κ ρ → Prop} (client : CDCClient κ) (sql : List Char)
    (h : Warms s) (there : s.client = some client)
    (same : ∀ w, w.sent = s.wire.sent → inv { s with wire := w })
    (snoc : ∀ w one, w.sent = s.wire.sent ++ [one] →
      (one.sql ≠ versionSql → ∃ k, one.handle = .connection k ∧ Warm k s.wire.sent) →
      inv { s with wire := w }) :
    Ends (queryOnLake peer client.lake sql) s.wire (fun _ w => inv { s with wire := w })
      (fun _ w => inv { s with wire := w }) := by
  obtain ⟨own,given,warm⟩ := h.client client there
  refine ends_mono ends_queryOnLake ?_ ?_
  · rintro r w ⟨k,answer,at_,added,_⟩
    obtain rfl := gives_own given _ _ at_
    exact snoc w _ added fun _ => ⟨k,rfl,warm⟩
  · rintro e w ⟨_,⟨_,still⟩ | ⟨k,answer,at_,added⟩⟩
    · exact same w still
    · obtain rfl := gives_own given _ _ at_
      exact snoc w _ added fun _ => ⟨k,rfl,warm⟩

theorem resolves_warms (h : Warms s) :
    Ends (resolveConnection peer c) s (fun _ => Ready) (fun _ => Warms) := by
  rw [resolveConnection, ends_bind, ends_get]
  cases there : s.client with
  | none =>
    have closed : ∀ {P : Prop}, s.opened = true → P :=
      fun opened => absurd there (h.opened opened).1
    rw [buildClient, ends_bind]
    refine ends_ownConnection ?_ (fun e w still => warms_same h still)
    intro k derived w still
    have shown : Warms { s with connection := some k, derivedConnection := derived, wire := w } := by
      have same := warms_same h still
      exact ⟨same.log,same.client,closed,same.batches⟩
    rw [ends_bind]
    refine ends_speak (ends_mono (ends_init rfl rfl rfl) ?_ ?_)
    · rintro client u ⟨same,r,added⟩
      rw [ends_modify]
      have warmer := warms_snoc shown added fun cold => absurd rfl cold
      have warm : Warm k u.sent := by
        rw [added]
        exact ⟨r,by simp⟩
      refine ⟨⟨warmer.log,?_,closed,warmer.batches⟩,by simp,k,rfl,warm⟩
      intro other given
      obtain rfl := Option.some.inj given
      exact ⟨k,by rw [same]; rfl,warm⟩
    · rintro e u ⟨answer,added⟩
      exact warms_snoc shown added fun cold => absurd rfl cold
  | some client =>
    obtain ⟨own,given,warm⟩ := h.client client there
    change Ends (mirrorConnection client) s _ _
    rw [mirrorConnection, ends_bind]
    refine ends_speak (ends_mono ends_connectionForLake ?_ ?_)
    · rintro k w ⟨at_,still,_⟩
      obtain rfl := gives_own given _ _ at_
      have some_ : s.client ≠ none := by simp [there]
      have shown : Warms { s with connection := some k } :=
        ⟨h.log,h.client,fun _ => ⟨some_,k,rfl,warm⟩,h.batches⟩
      exact ready_same ⟨shown,some_,k,rfl,warm⟩ still
    · rintro e w ⟨_,still,_⟩
      exact warms_same h still

theorem invariant_warms : Invariant peer c (Warms (κ := κ) (ρ := ρ)) Ready where
  inv_of_ready _ h := h.1
  ready_of_opened _ h opened := ⟨h,h.opened opened⟩
  resolves _ h := resolves_warms ⟨h.log,h.client,h.opened,h.batches⟩
  queries client _ sql h there := ends_warm_query client sql h there
    (fun _ still => warms_same h still) (fun _ _ added next => warms_snoc h added next)
  readyQueries client _ sql h there := ends_warm_query client sql h.1 there
    (fun _ still => ready_same h still) (fun _ _ added next => ready_snoc h added next)
  opens _ h := ⟨h.1.log,h.1.client,fun _ => h.2,h.1.batches⟩
  closes _ h := ⟨h.log,h.client,fun no => absurd no Bool.false_ne_true,h.batches⟩
  releases _ h := ⟨h.log,h.client,h.opened,h.batches⟩
  receives s h := by
    refine ⟨h.1.log,h.1.client,h.1.opened,?_⟩
    intro b member k bound
    rcases List.mem_append.mp member with old | new
    · exact h.1.batches b old k bound
    · obtain rfl := List.mem_singleton.mp new
      obtain ⟨_,_,k',shown,warm⟩ := h
      obtain rfl := Option.some.inj (shown.symm.trans bound)
      exact warm

theorem warms_step (h : Warms s) (call : Call ρ) : Warms (step peer c s call) := by
  refine ends_final _ (keeps_call invariant_warms call ?_ s h)
  intro batch p _ t b ht given
  unfold transact
  cases bound : b.connection with
  | none => exact ht
  | some k =>
    have each : ∀ sql, Keeps (fun w => Warms { t with wire := w } ∧ Warm k w.sent)
        (execute peer (.connection k) sql) := by
      rintro sql w ⟨warms,warm⟩
      have more : ∀ answer (w' : Wire κ ρ), w'.sent = w.sent ++ [⟨.connection k,sql,answer⟩] →
          Warms { t with wire := w' } ∧ Warm k w'.sent := by
        intro answer w' added
        refine ⟨warms_snoc (s := { t with wire := w }) warms added fun _ => ⟨k,rfl,warm⟩,?_⟩
        rw [added]
        exact warm_snoc warm _
      exact ends_mono ends_execute (fun _ w' h => more _ w' h.1) (fun _ w' h => more _ w' h.1)
    have start := And.intro ht (ht.batches b (List.mem_of_getElem? given) k bound)
    exact ends_speak (ends_mono (keeps_requests each p t.wire start) (fun _ _ h => h.1)
      (fun _ _ h => h.1))

/-- Whatever opens, closes, methods and transactions come, and wherever they fail: no statement
    of a consumer that builds its own client is the first on its connection; the prewarm
    query has been answered there before. -/
theorem warmed_before_use (peer : Peer ρ) (c : Consumer κ) (builds : c.client = none)
    (calls : List (Call ρ)) : Warmed (after peer c calls).wire.sent := by
  have fresh : Warms (c.fresh : Held κ ρ) := by
    refine ⟨?_,?_,fun no => absurd no Bool.false_ne_true,fun _ no => nomatch no⟩
    · intro before one after none_
      simp [Consumer.fresh] at none_
    · intro client there
      rw [Consumer.fresh, builds] at there
      cases there
  have kept : Warms (after peer c calls) := by
    induction calls using List.reverseRecOn with
    | nil => exact fresh
    | append_singleton calls call ih =>
      rw [after, List.foldl_append]
      exact warms_step ih call
  exact kept.log

end

def onCursors : Consumer Nat where
  lake := { connection := some 0, cursor := some fun n => .ok (n + 1) }

theorem warmed_cursor : Warmed
    (after agreeable onCursors [.opens (asking 2) {},.asks (asking 1),.closes {}]).wire.sent :=
  warmed_before_use agreeable onCursors rfl _

end CdcPinning
