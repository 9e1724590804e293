import RelMapper.Database.Script
import RelMapper.Proofs.Session.Composition
import RelMapper.Proofs.Session.Runs
namespace RelMapper

open Session

/-- What a caller can do with a session, but for the transactions of the caller's own. -/
inductive Operation
  | register (m : Model)
  | observe (m : Model)
  | findById (name : String) (id : Value) (o : FetchOptions)
  | findById? (name : String) (id : Value) (o : FetchOptions)
  | find? (name : String) (o : FetchOptions)
  | findAll (name : String) (o : FetchOptions)
  | list (name : String) (o : FetchOptions)
  | search (name text : String) (o : FetchOptions)
  | count (name : String) (o : FetchOptions)
  | countRelated (e : Entity) (relation : String)
  | lookup (name wanted field : String) (v : Value)
  | call (c : Call)

/-- Operations that a caller does one after the other. One that fails does not keep the next one
from being done. What is done in a transaction of the caller's own ends in the result that the
caller gives it. -/
inductive Operations
  | done
  | next (o : Operation) (rest : Operations)
  | transaction (inner : Operations) (result : Except Fault Unit) (rest : Operations)

/-- A create: the id that was found for its row, if it got so far, and the id that its caller was
told, if it succeeded. -/
structure Creation where
  read : Option Value
  told : Option Value

namespace Creation

/-- The last of the ids that `f` has of the creates, or else the one known before. -/
def last (f : Creation → Option Value) (cs : List Creation) (known : Option Value) : Option Value :=
  (cs.filterMap f).getLast?.or known

variable {f : Creation → Option Value}

theorem last_append (cs ds : List Creation) (known : Option Value) :
    last f (cs ++ ds) known = last f ds (last f cs known) := by
  rw [last, List.filterMap_append, List.getLast?_append, Option.or_assoc, last, last]

theorem last_singleton (c : Creation) (known : Option Value) :
    last f [c] known = (f c).or known := by
  cases h : f c <;> simp [last, h]

theorem last_of_none {cs : List Creation} (h : ∀ c ∈ cs, f c = none) (known : Option Value) :
    last f cs known = known := by
  rw [last, List.filterMap_eq_nil_iff.mpr h]
  rfl

theorem last_between {before after : List Creation} (c : Creation)
    (hafter : ∀ d ∈ after, f d = none) (known : Option Value) :
    last f (before ++ c :: after) known = (f c).or (last f before known) := by
  rw [List.append_cons, last_append, last_of_none hafter, last_append, last_singleton]

/-- Only the create that has found an id last decides whether the id found last has been told last:
it has told its own, or it has found the one that was told before. -/
theorem last_read_eq_last_told_iff {cs : List Creation}
    (htold : ∀ c ∈ cs, ∀ id, c.told = some id → c.read = some id) (known : Option Value) :
    last read cs known = last told cs known ↔ ∀ before c after id, cs = before ++ c :: after →
      c.read = some id → (∀ d ∈ after, d.read = none) →
      c.told = some id ∨ last told before known = some id := by
  have hsilent : ∀ c ∈ cs, c.read = none → c.told = none := by
    intro c hc hread
    refine Option.eq_none_iff_forall_ne_some.mpr fun id hid ↦ ?_
    rw [htold c hc id hid] at hread
    cases hread
  have hdecides {before after : List Creation} {c : Creation} {id : Value}
      (hcs : cs = before ++ c :: after) (hread : c.read = some id)
      (hafter : ∀ d ∈ after, d.read = none) :
      last read cs known = last told cs known ↔
        c.told = some id ∨ last told before known = some id := by
    have hafter' : ∀ d ∈ after, d.told = none := by
      intro d hd
      refine hsilent d ?_ (hafter d hd)
      rw [hcs]
      exact List.mem_append_right before (List.mem_cons_of_mem c hd)
    have hc : c ∈ cs := hcs ▸ List.mem_append_right before List.mem_cons_self
    rw [hcs, last_between c hafter, last_between c hafter', hread]
    cases hid : c.told with
    | none => simp [eq_comm]
    | some id' =>
      have hsame := (htold c hc id' hid).symm.trans hread
      simp [Option.some.inj hsame]
  constructor
  · exact fun heq before c after id hcs hread hafter ↦ (hdecides hcs hread hafter).mp heq
  · intro h
    cases hfind : cs.reverse.find? fun c ↦ c.read.isSome with
    | none =>
      have hread : ∀ c ∈ cs, c.read = none := fun c hc ↦ by
        simpa using List.find?_eq_none.mp hfind c (List.mem_reverse.mpr hc)
      rw [last_of_none hread, last_of_none fun c hc ↦ hsilent c hc (hread c hc)]
    | some c =>
      obtain ⟨hsome, after, before, hcs, hafter⟩ := List.find?_eq_some_iff_append.mp hfind
      obtain ⟨id, hread⟩ := Option.isSome_iff_exists.mp hsome
      have hcs : cs = before.reverse ++ c :: after.reverse := by
        rw [← List.reverse_reverse cs, hcs]
        simp
      have hafter : ∀ d ∈ after.reverse, d.read = none := fun d hd ↦ by
        simpa using hafter d (List.mem_reverse.mp hd)
      exact (hdecides hcs hread hafter).mpr (h _ c _ id hcs hread hafter)

end Creation

section Definitions

variable {σ : Type} [Database σ]

def Session.insertedId (name : String) (data : List (String × Value)) : SessionM σ Value := do
  let m ← model name
  let changes ← resolve m data
  let insert ← Insert.ofRow (← m.tableName) changes.columns
  execute (.insert insert)
  fetchInsertId

def Session.attempt (x : SessionM σ Unit) : SessionM σ Unit :=
  tryCatch x fun _ ↦ pure ()

namespace Operation

def run : Operation → SessionM σ Unit
  | register m => discard (Session.register m)
  | observe m => Session.observe m
  | findById name id o => discard (Session.findById name id o)
  | findById? name id o => discard (Session.findById? name id o)
  | find? name o => discard (Session.find? name o)
  | findAll name o => discard (Session.findAll name o)
  | list name o => discard (Session.list name o)
  | search name text o => discard (Session.search name text o)
  | count name o => discard (Session.count name o)
  | countRelated e relation => discard (Session.countRelated e relation)
  | lookup name wanted field v => discard (Session.lookup name wanted field v)
  | call c => discard c.run

def creation? : Operation → Session σ → Option Creation
  | call (.write (.create name data)), s =>
    some ⟨((insertedId name data).run s).1.toOption, ((create name data).run s).1.toOption⟩
  | _, _ => none

end Operation

namespace Operations

def run : Operations → SessionM σ Unit
  | done => pure ()
  | next o rest => do attempt o.run; rest.run
  | transaction inner result rest => do
    attempt (Session.transaction (do inner.run; liftM result))
    rest.run

def creations : Operations → Session σ → List Creation
  | done, _ => []
  | next o rest, s => (o.creation? s).toList ++ rest.creations (o.run.run s).2
  | transaction inner result rest, s =>
    inner.creations s ++
      rest.creations ((Session.transaction (do inner.run; liftM result)).run s).2

end Operations

end Definitions

namespace Session

variable {σ α β : Type}

/-- The id of the row inserted last stays as it is, whether or not `x` fails. -/
def KeepsInsertId (x : SessionM σ α) : Prop :=
  ∀ s, (x.run s).2.lastInsertId = s.lastInsertId

theorem KeepsInsertId.bind {x : SessionM σ α} {f : α → SessionM σ β} (hx : KeepsInsertId x)
    (hf : ∀ a, KeepsInsertId (f a)) : KeepsInsertId (x >>= f) := by
  intro s
  have hs := hx s
  rw [run_bind]
  rcases hrun : x.run s with ⟨e | a, t⟩
  · rw [hrun] at hs
    exact hs
  · rw [hrun] at hs
    exact (hf a t).trans hs

theorem keepsInsertId_lift (r : Except Fault α) : KeepsInsertId (liftM r : SessionM σ α) :=
  fun _ ↦ rfl

theorem composes_keepsInsertId : Composes fun _ (x : SessionM σ _) ↦ KeepsInsertId x where
  lift _ := keepsInsertId_lift _
  get _ := rfl
  bind := KeepsInsertId.bind

theorem keepsInsertId_onDatabase (x : DatabaseM σ α) : KeepsInsertId (onDatabase x) :=
  fun _ ↦ rfl

theorem keepsInsertId_onStatement (sql : String) (binds : List Value) (x : DatabaseM σ α) :
    KeepsInsertId (onStatement sql binds x) :=
  fun _ ↦ rfl

def SetsInsertId (x : SessionM σ Value) : Prop :=
  ∀ s, (x.run s).2.lastInsertId = (x.run s).1.toOption.or s.lastInsertId

theorem SetsInsertId.after {x : SessionM σ α} {f : α → SessionM σ Value} (hx : KeepsInsertId x)
    (hf : ∀ a, SetsInsertId (f a)) : SetsInsertId (x >>= f) := by
  intro s
  have hs := hx s
  rw [run_bind]
  rcases hrun : x.run s with ⟨e | a, t⟩
  · rw [hrun] at hs
    exact hs
  · rw [hrun] at hs
    exact hs ▸ hf a t

/-- After `x` has told a value, `y` goes on without setting the id and, if it does not fail, tells
the value of `x`. -/
structure Continues (x y : SessionM σ Value) : Prop where
  lastInsertId : ∀ s, (y.run s).2.lastInsertId = (x.run s).2.lastInsertId
  told : ∀ {s id}, (y.run s).1 = .ok id → (x.run s).1 = .ok id

theorem Continues.bind {x : SessionM σ α} {f g : α → SessionM σ Value}
    (h : ∀ a, Continues (f a) (g a)) : Continues (x >>= f) (x >>= g) where
  lastInsertId s := by
    rw [run_bind, run_bind]
    rcases x.run s with ⟨e | a, t⟩
    · rfl
    · exact (h a).lastInsertId t
  told {s id} hid := by
    rw [run_bind] at hid ⊢
    rcases hrun : x.run s with ⟨e | a, t⟩
    · rw [hrun] at hid
      cases hid
    · rw [hrun] at hid
      exact (h a).told hid

theorem Continues.trans {x y z : SessionM σ Value} (h : Continues x y) (h' : Continues y z) :
    Continues x z where
  lastInsertId s := (h'.lastInsertId s).trans (h.lastInsertId s)
  told hid := h.told (h'.told hid)

theorem continues_after {x : SessionM σ Value} {f : Value → SessionM σ Unit}
    (h : ∀ id, KeepsInsertId (f id)) : Continues x (do let id ← x; f id; return id) where
  lastInsertId s := by
    rw [run_bind]
    rcases x.run s with ⟨e | id, t⟩
    · rfl
    · exact (h id).bind (fun _ ↦ keepsInsertId_lift (.ok id)) t
  told {s id} hid := by
    obtain ⟨id', t, hx, hrest⟩ := run_bind_eq_ok.mp (Prod.ext hid rfl)
    obtain ⟨-, u, -, hrest⟩ := run_bind_eq_ok.mp hrest
    obtain ⟨rfl, -⟩ := run_pure_eq_ok.mp hrest
    rw [hx]

theorem run_attempt (x : SessionM σ Unit) (s : Session σ) :
    (attempt x).run s = (.ok (), (x.run s).2) := by
  rw [attempt, run_tryCatch]
  rcases x.run s with ⟨e | ⟨⟩, t⟩
  · rfl
  · rfl

variable [Database σ]

theorem keepsInsertId_run (sql : String) (binds : List Value) :
    KeepsInsertId (run sql binds : SessionM σ Unit) :=
  fun _ ↦ rfl

theorem keepsInsertId_execute (st : Statement) : KeepsInsertId (execute st : SessionM σ Unit) :=
  keepsInsertId_run st.sql st.binds

theorem keepsInsertId_fetchOne (st : Statement) :
    KeepsInsertId (fetchOne st : SessionM σ (Option Row)) :=
  (keepsInsertId_execute st).bind fun _ ↦ keepsInsertId_onStatement _ _ _

theorem keepsInsertId_fetchAll (st : Statement) :
    KeepsInsertId (fetchAll st : SessionM σ (List Row)) :=
  (keepsInsertId_execute st).bind fun _ ↦ keepsInsertId_onStatement _ _ _

theorem composesReads_keepsInsertId :
    ComposesReads fun _ (x : SessionM σ _) ↦ KeepsInsertId x where
  toComposes := composes_keepsInsertId
  fetchOne q := keepsInsertId_fetchOne (.select q)
  fetchAll q := keepsInsertId_fetchAll (.select q)

theorem lastInsertId_transaction (x : SessionM σ α) (s : Session σ) :
    ((transaction x).run s).2.lastInsertId = (x.run s).2.lastInsertId := by
  rw [run_transaction]
  rcases x.run s with ⟨e | a, t⟩
  · rfl
  · have ht := keepsInsertId_onDatabase (Database.commit : DatabaseM σ Unit) t
    dsimp only
    rcases hcommit : (onDatabase Database.commit).run t with ⟨e | ⟨⟩, u⟩
    · rw [hcommit] at ht
      exact ht
    · rw [hcommit] at ht
      exact ht

theorem KeepsInsertId.transaction {x : SessionM σ α} (h : KeepsInsertId x) :
    KeepsInsertId (Session.transaction x) :=
  fun s ↦ (lastInsertId_transaction x s).trans (h s)

theorem composesWrites_keepsInsertId :
    ComposesWrites fun _ (x : SessionM σ _) ↦ KeepsInsertId x where
  toComposes := composes_keepsInsertId
  execute := keepsInsertId_execute

theorem keepsInsertId_executeAll (ss : List Statement) :
    KeepsInsertId (executeAll ss : SessionM σ Unit) :=
  (composesWrites_keepsInsertId.executes ss).transaction

theorem keepsInsertId_applyUpdate (m : Model) (p : Predicate) (data : List (String × Value))
    (owner : Option Value) (loaded : Option Entity) :
    KeepsInsertId (applyUpdate m p data owner loaded : SessionM σ Unit) := by
  refine (composesReads_keepsInsertId.resolve m data).bind fun changes ↦ ?_
  refine (composesReads_keepsInsertId.linkChanges m owner loaded changes.links).bind fun ls ↦ ?_
  refine (keepsInsertId_lift (columnUpdate m p changes.columns)).bind fun u ↦ ?_
  split
  · exact keepsInsertId_lift (.ok ())
  · exact (composesWrites_keepsInsertId.updateLinked m u ls).transaction

theorem keepsInsertId_update (name : String) (condition : Option Predicate)
    (data : List (String × Value)) (loaded : Option Entity) :
    KeepsInsertId (update name condition data loaded : SessionM σ Unit) := by
  refine (composes_keepsInsertId.model name).bind fun m ↦ ?_
  refine (keepsInsertId_lift (ownerId loaded)).bind fun owner ↦ ?_
  cases condition with
  | some p => exact keepsInsertId_applyUpdate m p data owner loaded
  | none =>
    cases owner with
    | some id =>
      exact (keepsInsertId_lift (m.idIs id)).bind fun p ↦
        keepsInsertId_applyUpdate m p data (some id) loaded
    | none => exact keepsInsertId_lift (.error _)

theorem keepsInsertId_write {w : Write} (h : ∀ name data, w ≠ .create name data) :
    KeepsInsertId (w.run : SessionM σ (Option Value)) := by
  have hnone {x : SessionM σ Unit} (hx : KeepsInsertId x) :
      KeepsInsertId (do x; return none : SessionM σ (Option Value)) :=
    hx.bind fun _ ↦ keepsInsertId_lift (.ok none)
  cases w with
  | create name data => exact absurd rfl (h name data)
  | update name condition data loaded => exact hnone (keepsInsertId_update name condition data loaded)
  | updateById name id data =>
    refine hnone ((composes_keepsInsertId.model name).bind fun m ↦ ?_)
    exact (keepsInsertId_lift (m.idIs id)).bind fun p ↦
      keepsInsertId_applyUpdate m p data (some id) none
  | delete name p =>
    refine hnone ((composes_keepsInsertId.model name).bind fun m ↦ ?_)
    exact (keepsInsertId_lift m.tableName).bind fun table ↦ keepsInsertId_executeAll _
  | deleteById name id =>
    refine hnone ((composes_keepsInsertId.model name).bind fun m ↦ ?_)
    refine (keepsInsertId_lift m.idName).bind fun owner ↦ ?_
    refine (keepsInsertId_lift (m.idIs id)).bind fun p ↦ ?_
    exact (keepsInsertId_lift m.tableName).bind fun table ↦ keepsInsertId_executeAll _
  | createTables =>
    refine hnone (composes_keepsInsertId.get.bind fun s ↦ ?_)
    exact (keepsInsertId_lift _).bind fun tables ↦ keepsInsertId_executeAll _
  | batch ss => exact hnone (keepsInsertId_executeAll ss)

theorem setsInsertId_fetchInsertId : SetsInsertId (fetchInsertId : SessionM σ Value) := by
  refine .after composes_keepsInsertId.get fun s ↦ ?_
  refine .after (keepsInsertId_run s.config.lastInsertIdSql []) fun _ ↦ ?_
  refine .after (keepsInsertId_onStatement _ _ _) fun row ↦ ?_
  split
  · exact fun _ ↦ rfl
  · exact fun _ ↦ rfl
  · exact fun _ ↦ rfl

theorem setsInsertId_insertedId (name : String) (data : List (String × Value)) :
    SetsInsertId (insertedId name data : SessionM σ Value) := by
  refine .after (composes_keepsInsertId.model name) fun m ↦ ?_
  refine .after (composesReads_keepsInsertId.resolve m data) fun changes ↦ ?_
  refine .after (keepsInsertId_lift m.tableName) fun table ↦ ?_
  refine .after (keepsInsertId_lift _) fun i ↦ ?_
  exact .after (keepsInsertId_execute (.insert i)) fun _ ↦ setsInsertId_fetchInsertId

theorem continues_transaction (x : SessionM σ Value) : Continues x (transaction x) where
  lastInsertId := lastInsertId_transaction x
  told {s id} hid := by
    obtain ⟨t, hx, -⟩ := run_transaction_eq_ok (s := s) (Prod.ext hid rfl)
    rw [hx]

theorem continues_create (name : String) (data : List (String × Value)) :
    Continues (insertedId name data : SessionM σ Value) (create name data) := by
  refine .bind fun m ↦ .bind fun changes ↦ .bind fun table ↦ .bind fun i ↦ ?_
  refine Continues.trans (.bind fun _ ↦ ?_) (continues_transaction _)
  exact continues_after fun id ↦
    composes_keepsInsertId.forM (fun l ↦ composesWrites_keepsInsertId.reconcile m id l [])
      changes.links

end Session

section Operations

variable {σ : Type} [Database σ]

theorem Operation.lastInsertId_run (o : Operation) (s : Session σ) :
    (o.run.run s).2.lastInsertId = ((o.creation? s).bind Creation.read).or s.lastInsertId := by
  have hreads : ComposesReads fun _ (x : SessionM σ _) ↦ KeepsInsertId x :=
    composesReads_keepsInsertId
  have hdiscard {α : Type} {x : SessionM σ α} (hx : KeepsInsertId x) :
      ((discard x).run s).2.lastInsertId = s.lastInsertId :=
    hreads.map hx (Function.const α ()) s
  cases o with
  | register m => exact hdiscard fun _ ↦ rfl
  | observe m => rfl
  | findById name id o => exact hdiscard (hreads.findById name id o)
  | findById? name id o => exact hdiscard (hreads.findById? name id o)
  | find? name o => exact hdiscard (hreads.find? name o)
  | findAll name o => exact hdiscard (hreads.findAll name o)
  | list name o => exact hdiscard (hreads.list name o)
  | search name text o => exact hdiscard (hreads.list name { o with search := some text })
  | count name o => exact hdiscard (hreads.count name o)
  | countRelated e relation => exact hdiscard (hreads.countRelated e relation)
  | lookup name wanted field v => exact hdiscard (hreads.lookup name wanted field v)
  | call c =>
    cases c with
    | execute st => exact hdiscard ((keepsInsertId_execute st).bind fun _ ↦ hreads.pure Reply.done)
    | fetchOne st => exact hdiscard (hreads.map (keepsInsertId_fetchOne st) Reply.row)
    | fetchAll st => exact hdiscard (hreads.map (keepsInsertId_fetchAll st) Reply.rows)
    | write w =>
      have hother (h : ∀ name data, w ≠ .create name data) :
          ((discard (Call.write w).run).run s).2.lastInsertId = s.lastInsertId :=
        hdiscard (hreads.map (keepsInsertId_write h) Reply.id)
      cases w with
      | create name data =>
        calc ((discard (Call.write (.create name data)).run).run s).2.lastInsertId
            = ((create name data).run s).2.lastInsertId := by
              refine congrArg Session.lastInsertId ?_
              refine (snd_run_map (Function.const Reply ()) _ s).trans ?_
              exact (snd_run_map Reply.id _ s).trans (snd_run_map some _ s)
          _ = ((insertedId name data).run s).2.lastInsertId :=
            (continues_create name data).lastInsertId s
          _ = ((insertedId name data).run s).1.toOption.or s.lastInsertId :=
            setsInsertId_insertedId name data s
      | update => exact hother nofun
      | updateById => exact hother nofun
      | delete => exact hother nofun
      | deleteById => exact hother nofun
      | createTables => exact hother nofun
      | batch => exact hother nofun

namespace Operations

/-- However a create ends, the id that it has found is the one that is known from then on. -/
theorem lastInsertId_run (ops : Operations) (s : Session σ) :
    (ops.run.run s).2.lastInsertId = Creation.last Creation.read (ops.creations s) s.lastInsertId := by
  induction ops generalizing s with
  | done => rfl
  | next o rest ih =>
    have hrun : (run (next o rest)).run s = rest.run.run (o.run.run s).2 := by
      rw [run, run_bind, run_attempt]
    rw [hrun, ih, o.lastInsertId_run, creations, Creation.last_append]
    cases o.creation? s with
    | none => rfl
    | some c =>
      have hlast : Creation.last Creation.read (some c).toList s.lastInsertId =
          c.read.or s.lastInsertId := Creation.last_singleton c s.lastInsertId
      rw [hlast]
      rfl
  | transaction inner result rest ih ih' =>
    have hrun : (run (transaction inner result rest)).run s =
        rest.run.run ((Session.transaction (do inner.run; liftM result)).run s).2 := by
      rw [run, run_bind, run_attempt]
    have hinner : ((inner.run >>= fun _ ↦ liftM result).run s).2 = (inner.run.run s).2 := by
      rw [run_bind]
      rcases inner.run.run s with ⟨e | ⟨⟩, t⟩
      · rfl
      · rfl
    rw [hrun, ih', lastInsertId_transaction, hinner, ih, creations, Creation.last_append]

theorem read_of_told (ops : Operations) (s : Session σ) {c : Creation} (hc : c ∈ ops.creations s)
    {id : Value} (htold : c.told = some id) : c.read = some id := by
  induction ops generalizing s with
  | done => cases hc
  | next o rest ih =>
    rcases List.mem_append.mp hc with hc | hc
    · have ho : o.creation? s = some c := Option.mem_toList.mp hc
      rw [Operation.creation?.eq_def] at ho
      split at ho
      · obtain rfl := Option.some.inj ho
        exact toOption_eq_some.mpr ((continues_create _ _).told (toOption_eq_some.mp htold))
      · cases ho
    · exact ih _ hc
  | transaction inner result rest ih ih' =>
    rcases List.mem_append.mp hc with hc | hc
    · exact ih s hc
    · exact ih' _ hc

/-- The id of the last create that found one is known after all operations. It is the id of the last
create that succeeded unless that create failed, after it had found an id not known before. A create
leaves the id as it was unless it finds another one, whether or not it fails then. -/
theorem lastInsertId_eq_told_iff (ops : Operations) (s : Session σ) :
    (ops.run.run s).2.lastInsertId = Creation.last Creation.read (ops.creations s) s.lastInsertId ∧
    (∀ c ∈ ops.creations s, ∀ id, c.told = some id → c.read = some id) ∧
    ((ops.run.run s).2.lastInsertId = Creation.last Creation.told (ops.creations s) s.lastInsertId ↔
      ∀ before c after id, ops.creations s = before ++ c :: after → c.read = some id →
        (∀ d ∈ after, d.read = none) →
        c.told = some id ∨ Creation.last Creation.told before s.lastInsertId = some id) ∧
    ∀ name data, ((create name data).run s).2.lastInsertId = s.lastInsertId ↔
      ∀ id, ((insertedId name data).run s).1 = .ok id → s.lastInsertId = some id := by
  have htold : ∀ c ∈ ops.creations s, ∀ id, c.told = some id → c.read = some id :=
    fun c hc id hid ↦ ops.read_of_told s hc hid
  refine ⟨ops.lastInsertId_run s, htold, ?_, fun name data ↦ ?_⟩
  · rw [ops.lastInsertId_run, Creation.last_read_eq_last_told_iff htold]
  · rw [(continues_create name data).lastInsertId, setsInsertId_insertedId]
    cases ((insertedId name data).run s).1 with
    | ok id =>
      constructor
      · rintro hid _ ⟨⟩
        exact hid.symm
      · intro hid
        exact (hid id rfl).symm
    | error e => exact ⟨fun _ ↦ nofun, fun _ ↦ rfl⟩

/-- A film whose row could not be committed has the id that is known afterwards, although nothing
has been told of it. -/
theorem lastInsertId_uncommitted :
    let film : Model := { name := "Film", table := some "film",
                          fields := [{ name := "film_id", kind := .integer, primaryKey := true },
                            { name := "title", kind := .string }] }
    let script : Script := { results := [[[.bigInt 1]]], rules := [⟨.commit, .always, "locked"⟩] }
    let s : Session Script := { database := script, registry := ⟨[film]⟩ }
    let ops : Operations :=
      .next (.call (.write (.create "Film" [("title", .text "Alien")]))) .done
    (ops.run.run s).2.lastInsertId.bind Value.asInt64 = some 1 ∧
      (ops.creations s).map (fun c ↦ c.told.isSome) = [false] ∧
      (ops.run.run s).2.lastInsertId ≠ Creation.last Creation.told (ops.creations s) s.lastInsertId := by
  intro film script s ops
  refine ⟨by decide +kernel, by decide +kernel, fun heq ↦ ?_⟩
  have hfound : ((insertedId "Film" [("title", .text "Alien")]).run s).1.toOption.any
      (fun _ ↦ true) = true := by decide +kernel
  obtain ⟨id, u, hid, -⟩ := exists_run_eq_ok hfound
  have hread : ((insertedId "Film" [("title", .text "Alien")]).run s).1.toOption = some id :=
    toOption_eq_some.mpr (congrArg Prod.fst hid)
  rcases (ops.lastInsertId_eq_told_iff s).2.2.1.mp heq [] _ [] id rfl hread nofun with hold | hold
  · have hfailed : ((create "Film" [("title", .text "Alien")]).run s).1.toOption.isSome = false := by
      decide +kernel
    have htold : ((create "Film" [("title", .text "Alien")]).run s).1.toOption = some id := hold
    rw [htold] at hfailed
    cases hfailed
  · cases hold

end Operations

end Operations

end RelMapper
