import DucklakeCdc.ConsumerStatements

/-!
The consumers of an app (`CDCApp.__init__`, `_register`). They are registered under their
names, so no two of its workers ever work on the same consumer of a catalog.
-/
namespace CdcOperations
open CdcRetry CdcSetup
variable {κ : Type}

structure AppOptions where
  installSignals : Option Bool := none
  shutdownTimeout : ℚ := 30
  listenTimeoutMs : Int := 1000
  maxSnapshots : Int := 100

/-- An app as its constructor leaves it: the consumers of `_workers` in order. -/
structure HostApp (κ : Type) where
  options : AppOptions
  consumers : List (Sender κ)
  distinct : (consumers.map Sender.name).Nodup
  timeout_nonneg : 0 ≤ options.shutdownTimeout
  listen_nonneg : 0 ≤ options.listenTimeoutMs
  snapshots_pos : 0 < options.maxSnapshots

def registeredError (c : Sender κ) : Exc := .raised .valueError
  ("consumer " ++ pyRepr c.base.platform c.base.config.name ++ " is already registered")

def HostApp.register (app : HostApp κ) (c : Sender κ) : Except Exc (HostApp κ) :=
  if known : c.name ∈ app.consumers.map Sender.name then .error (registeredError c)
  else .ok { app with
    consumers := app.consumers ++ [c]
    distinct := by
      rw [List.map_append, List.map_singleton, List.nodup_append_comm, List.singleton_append]
      exact List.nodup_cons.mpr ⟨known,app.distinct⟩ }

def HostApp.init (options : AppOptions) (consumers : List (Sender κ)) : Except Exc (HostApp κ) :=
  if timed : options.shutdownTimeout < 0 then
    .error (.raised .valueError "shutdown_timeout must be >= 0")
  else if listens : options.listenTimeoutMs < 0 then
    .error (.raised .valueError "listen_timeout_ms must be >= 0")
  else if windows : options.maxSnapshots ≤ 0 then
    .error (.raised .valueError "max_snapshots must be > 0")
  else consumers.foldlM HostApp.register ⟨options,[],List.nodup_nil,not_lt.mp timed,
    not_lt.mp listens,not_le.mp windows⟩

def AppOptions.Valid (options : AppOptions) : Prop :=
  0 ≤ options.shutdownTimeout ∧ 0 ≤ options.listenTimeoutMs ∧ 0 < options.maxSnapshots

theorem register_all (app : HostApp κ) (consumers : List (Sender κ)) :
    ((app.consumers ++ consumers).map Sender.name).Nodup ∧
        (∃ app', consumers.foldlM HostApp.register app = .ok app' ∧
          app'.options = app.options ∧ app'.consumers = app.consumers ++ consumers) ∨
      ¬ ((app.consumers ++ consumers).map Sender.name).Nodup ∧
        ∃ before c after, consumers = before ++ c :: after ∧
          c.name ∈ (app.consumers ++ before).map Sender.name ∧
          consumers.foldlM HostApp.register app = .error (registeredError c) := by
  induction consumers generalizing app with
  | nil =>
    rw [List.append_nil]
    exact Or.inl ⟨app.distinct,app,rfl,rfl,rfl⟩
  | cons c rest ih =>
    rw [List.foldlM_cons]
    by_cases known : c.name ∈ app.consumers.map Sender.name
    · have refused : app.register c = .error (registeredError c) := dif_pos known
      rw [refused]
      refine Or.inr ⟨?_,[],c,rest,rfl,?_,rfl⟩
      · intro distinct
        rw [List.map_append, List.map_cons] at distinct
        exact (List.nodup_append'.mp distinct).2.2 known List.mem_cons_self
      · rwa [List.append_nil]
    · obtain ⟨next,registered,options,consumers⟩ : ∃ next, app.register c = .ok next ∧
          next.options = app.options ∧ next.consumers = app.consumers ++ [c] :=
        ⟨_,dif_neg known,rfl,rfl⟩
      have joined : next.consumers ++ rest = app.consumers ++ c :: rest := by
        rw [consumers, List.append_assoc, List.singleton_append]
      rw [registered]
      have all := ih next
      rw [joined] at all
      rcases all with ⟨distinct,app',done,same,listed⟩ | ⟨twice,before,c',after,rfl,again,stopped⟩
      · exact Or.inl ⟨distinct,app',done,same.trans options,listed⟩
      · refine Or.inr ⟨twice,c :: before,c',after,rfl,?_,stopped⟩
        rwa [consumers, List.append_assoc, List.singleton_append] at again

def addressed (sql : List Char) : Option (List Char) :=
  (readStatement sql).bind fun read => read.2.consumer?

theorem addressed_own {c : Sender κ} {op : Operation} {sql name : List Char} (sends : Sends c op)
    (sent : op.statement c.catalog = .ok sql) (about : addressed sql = some name) :
    name = c.name := by
  rw [addressed, reads_statement sent, Option.bind_some] at about
  rcases consumer_own sends with silent | own
  · rw [silent] at about
    cases about
  · exact Option.some.inj (about.symm.trans own)

/-- No two workers of the app send statements about the same consumer. -/
def Isolated (app : HostApp κ) : Prop :=
  ∀ (i j : Nat) (c c' : Sender κ), i ≠ j → app.consumers[i]? = some c → app.consumers[j]? = some c' →
    ∀ op op' sql sql' name, Sends c op → Sends c' op' → op.statement c.catalog = .ok sql →
      op'.statement c'.catalog = .ok sql' → addressed sql = some name → addressed sql' ≠ some name

theorem hosted_isolated (app : HostApp κ) : Isolated app := by
  intro i j c c' apart here there op op' sql sql' name sends sends' sent sent' about about'
  have own := addressed_own sends sent about
  have own' := addressed_own sends' sent' about'
  have first : (app.consumers.map Sender.name)[i]? = some c.name := by
    rw [List.getElem?_map, here]
    rfl
  have second : (app.consumers.map Sender.name)[j]? = some c.name := by
    rw [List.getElem?_map, there, ← own, own']
    rfl
  obtain ⟨within,_⟩ := List.getElem?_eq_some_iff.mp first
  exact apart ((List.getElem?_inj within app.distinct).mp (first.trans second.symm))

/-- An app is made of consumers exactly if its parameters are in range and the names differ;
    it holds them in order, and then its workers keep out of each other's way. Anything else
    is a `ValueError`, and a repeated name is named in it. -/
theorem apps_isolate (options : AppOptions) (consumers : List (Sender κ)) :
    (options.Valid ∧ (consumers.map Sender.name).Nodup →
      ∃ app, HostApp.init options consumers = .ok app ∧ app.options = options ∧
        app.consumers = consumers ∧ Isolated app) ∧
    (¬ (options.Valid ∧ (consumers.map Sender.name).Nodup) →
      ∃ e, HostApp.init options consumers = .error e ∧ e.cls = .valueError ∧
        (options.Valid → ∃ before c after, consumers = before ++ c :: after ∧
          c.name ∈ before.map Sender.name ∧ e = registeredError c)) := by
  constructor
  · rintro ⟨⟨timed,listens,windows⟩,distinct⟩
    rcases register_all ⟨options,[],List.nodup_nil,timed,listens,windows⟩ consumers with
      ⟨_,app,made,same,listed⟩ | ⟨twice,_⟩
    · refine ⟨app,?_,same,listed,hosted_isolated app⟩
      rw [HostApp.init, dif_neg (not_lt.mpr timed), dif_neg (not_lt.mpr listens),
        dif_neg (not_le.mpr windows)]
      exact made
    · exact absurd distinct twice
  · intro invalid
    by_cases timed : options.shutdownTimeout < 0
    · refine ⟨_,dif_pos timed,rfl,fun valid => absurd timed (not_lt.mpr valid.1)⟩
    · by_cases listens : options.listenTimeoutMs < 0
      · exact ⟨_,by rw [HostApp.init, dif_neg timed, dif_pos listens],rfl,
          fun valid => absurd listens (not_lt.mpr valid.2.1)⟩
      · by_cases windows : options.maxSnapshots ≤ 0
        · exact ⟨_,by rw [HostApp.init, dif_neg timed, dif_neg listens, dif_pos windows],rfl,
            fun valid => absurd windows (not_le.mpr valid.2.2)⟩
        · have valid : options.Valid := ⟨not_lt.mp timed,not_lt.mp listens,not_le.mp windows⟩
          rcases register_all ⟨options,[],List.nodup_nil,valid.1,valid.2.1,valid.2.2⟩ consumers with
            ⟨distinct,_⟩ | ⟨_,before,c,after,shape,again,stopped⟩
          · exact absurd ⟨valid,distinct⟩ invalid
          · refine ⟨registeredError c,?_,rfl,fun _ => ⟨before,c,after,shape,again,rfl⟩⟩
            rw [HostApp.init, dif_neg timed, dif_neg listens, dif_neg windows]
            exact stopped

end CdcOperations
