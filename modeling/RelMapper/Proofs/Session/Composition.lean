import RelMapper.Proofs.OwnFaults
import RelMapper.Proofs.Session.Runs
namespace RelMapper.Session

variable {σ α β : Type} {P : ∀ α : Type, SessionM σ α → Prop}

/-- A property of computations that those have which leave the session alone and fail only with a
reason of their own, and that is kept when computations are put one after the other. -/
structure Composes (P : ∀ α : Type, SessionM σ α → Prop) : Prop where
  lift : ∀ {α : Type} {r : Except Fault α}, OwnFaults r → P α (liftM r)
  get : P (Session σ) get
  bind : ∀ {α β : Type} {x : SessionM σ α} {f : α → SessionM σ β},
    P α x → (∀ a, P β (f a)) → P β (x >>= f)

namespace Composes

theorem pure (h : Composes P) (a : α) : P α (Pure.pure a) :=
  h.lift (.ok a)

theorem throw (h : Composes P) {e : Fault} (he : e.sql = none) : P α (MonadExcept.throw e) :=
  h.lift (.error he)

theorem map (h : Composes P) {x : SessionM σ α} (hx : P α x) (f : α → β) : P β (f <$> x) := by
  rw [← bind_pure_comp]
  exact h.bind hx fun a ↦ h.pure (f a)

theorem forM_of_mem (h : Composes P) {f : α → SessionM σ Unit} {as : List α}
    (hf : ∀ a ∈ as, P Unit (f a)) : P Unit (as.forM f) := by
  induction as with
  | nil => exact h.pure ()
  | cons a as ih =>
    obtain ⟨ha, has⟩ := List.forall_mem_cons.mp hf
    exact h.bind ha fun _ ↦ ih has

theorem forM (h : Composes P) {f : α → SessionM σ Unit} (hf : ∀ a, P Unit (f a)) (as : List α) :
    P Unit (as.forM f) :=
  h.forM_of_mem fun a _ ↦ hf a

theorem mapM (h : Composes P) {f : α → SessionM σ β} (hf : ∀ a, P β (f a)) (as : List α) :
    P (List β) (as.mapM f) := by
  induction as with
  | nil => exact h.pure []
  | cons a as ih =>
    rw [List.mapM_cons]
    exact h.bind (hf a) fun b ↦ h.bind ih fun bs ↦ h.pure (b :: bs)

theorem foldlM (h : Composes P) {f : β → α → SessionM σ β} (hf : ∀ b a, P β (f b a)) (as : List α)
    (b : β) : P β (as.foldlM f b) := by
  induction as generalizing b with
  | nil => exact h.pure b
  | cons a as ih =>
    rw [List.foldlM_cons]
    exact h.bind (hf b a) ih

theorem model (h : Composes P) (name : String) : P Model (Session.model name) :=
  h.bind h.get fun s ↦ h.lift (s.registry.ownFaults_get name)

end Composes

def OnSuccess (R : Session σ → Session σ → Prop) (x : SessionM σ α) : Prop :=
  ∀ ⦃s a u⦄, x.run s = (.ok a, u) → R s u

theorem composes_onSuccess {R : Session σ → Session σ → Prop} (hrefl : ∀ s, R s s)
    (htrans : ∀ {s t u}, R s t → R t u → R s u) :
    Composes fun α (x : SessionM σ α) ↦ OnSuccess R x where
  lift _ s a u hrun := by
    obtain ⟨-, rfl⟩ := run_lift_eq_ok.mp hrun
    exact hrefl s
  get s a u hrun := by
    cases hrun
    exact hrefl s
  bind hx hf := by
    intro s b u hrun
    obtain ⟨a, t, ht, hu⟩ := run_bind_eq_ok.mp hrun
    exact htrans (hx ht) (hf a hu)

variable [Database σ]

structure ComposesReads (P : ∀ α : Type, SessionM σ α → Prop) : Prop extends Composes P where
  fetchOne : ∀ q : Query, P (Option Row) (fetchOne (.select q))
  fetchAll : ∀ q : Query, P (List Row) (fetchAll (.select q))

namespace ComposesReads

variable (h : ComposesReads P)
include h

theorem fetchValue (q : Query) : P (Option Value) (fetchValue (.select q)) :=
  h.bind (h.fetchOne q) fun row ↦ h.pure (row.bind List.head?)

theorem lookup (name wanted field : String) (v : Value) :
    P (Option Value) (lookup name wanted field v) :=
  h.bind (h.model name) fun m ↦
    h.bind (h.lift (Query.ownFaults_lookup m wanted field v)) fun q ↦ h.fetchValue q

theorem foreignId (r : Relation) (foreignColumn : String) (lookupColumn : Option String)
    (loadAll : Bool) (v : Value) :
    P Value (foreignId r foreignColumn lookupColumn loadAll v) := by
  rw [foreignId.eq_def]
  split
  · refine h.bind (h.lookup r.foreignModel foreignColumn _ v) fun id ↦ ?_
    cases id with
    | some id => exact h.pure id
    | none => exact h.throw rfl
  · exact h.pure v

theorem resolveItem (m : Model) (c : Changes) (item : String × Value) :
    P Changes (resolveItem m c item) := by
  obtain ⟨key, v⟩ := item
  rw [Session.resolveItem]
  split
  · exact h.pure _
  · split
    · exact h.pure _
    · refine h.bind (h.lift (m.ownFaults_relation key)) fun r ↦ ?_
      split
      · exact h.bind (h.foreignId r _ _ _ v) fun id ↦ h.pure _
      · exact h.bind (h.lift (IdList.ownFaults_read v)) fun ids ↦ h.pure _
      · exact h.throw rfl

theorem resolve (m : Model) (data : List (String × Value)) : P Changes (resolve m data) :=
  h.foldlM (h.resolveItem m) data {}

theorem linkedIds (m : Model) (owner : Value) (loaded : Option Entity) (l : LinkChange) :
    P (List Value) (linkedIds m owner loaded l) := by
  rw [Session.linkedIds]
  split
  · exact h.pure _
  · refine h.bind (h.lift (Query.ownFaults_linkedIds m l.junction l.foreignKey owner)) fun q ↦ ?_
    exact h.bind (h.fetchAll q) fun rows ↦ h.pure _

theorem linkChanges (m : Model) (owner : Option Value) (loaded : Option Entity)
    (ls : List LinkChange) :
    P (List (Value × LinkChange × List Value)) (linkChanges m owner loaded ls) := by
  rw [linkChanges.eq_def]
  split
  · exact h.pure _
  · split
    · exact h.mapM (fun l ↦ h.bind (h.linkedIds m _ loaded l) fun ids ↦ h.pure _) _
    · exact h.throw rfl

theorem planUpdate (m : Model) (condition : Predicate) (data : List (String × Value))
    (owner : Option Value) (loaded : Option Entity) :
    P (Option Work) (Write.planUpdate m condition data owner loaded) := by
  refine h.bind (h.resolve m data) fun changes ↦ ?_
  refine h.bind (h.linkChanges m owner loaded changes.links) fun links ↦ ?_
  refine h.bind (h.lift (ownFaults_columnUpdate m condition changes.columns)) fun update ↦ ?_
  split
  · exact h.pure none
  · exact h.pure _

theorem plan (w : Write) : P (Option Work) w.plan := by
  cases w with
  | create name data =>
    refine h.bind (h.model name) fun m ↦ h.bind (h.resolve m data) fun changes ↦ ?_
    refine h.bind (h.lift m.ownFaults_tableName) fun table ↦ ?_
    exact h.bind (h.lift (Insert.ownFaults_ofRow table changes.columns)) fun insert ↦ h.pure _
  | update name condition data loaded =>
    refine h.bind (h.model name) fun m ↦ h.bind (h.lift (ownFaults_ownerId loaded)) fun owner ↦ ?_
    cases condition with
    | some p => exact h.planUpdate m p data owner loaded
    | none =>
      cases owner with
      | some id =>
        exact h.bind (h.lift (m.ownFaults_idIs id)) fun p ↦ h.planUpdate m p data _ loaded
      | none => exact h.throw rfl
  | updateById name id data =>
    refine h.bind (h.model name) fun m ↦ h.bind (h.lift (m.ownFaults_idIs id)) fun p ↦ ?_
    exact h.planUpdate m p data (some id) none
  | delete name p =>
    exact h.bind (h.model name) fun m ↦ h.bind (h.lift m.ownFaults_tableName) fun table ↦ h.pure _
  | deleteById name id =>
    refine h.bind (h.model name) fun m ↦ h.bind (h.lift m.ownFaults_idName) fun owner ↦ ?_
    refine h.bind (h.lift (m.ownFaults_idIs id)) fun p ↦ ?_
    exact h.bind (h.lift m.ownFaults_tableName) fun table ↦ h.pure _
  | createTables =>
    refine h.bind h.get fun s ↦ ?_
    exact h.bind (h.lift (Schema.ownFaults_create true s.registry.models)) fun tables ↦ h.pure _
  | batch ss => exact h.pure _

theorem load (f : FollowUp) : P (Loaded Entity) (load f) := by
  cases f with
  | known data => exact h.pure data
  | one q =>
    refine h.bind (h.fetchOne q.query) fun row ↦ ?_
    cases row with
    | some row => exact h.bind (h.lift (q.ownFaults_read row)) fun e ↦ h.pure _
    | none => exact h.pure _
  | many q =>
    refine h.bind (h.fetchAll q.query) fun rows ↦ ?_
    exact h.bind (h.lift (q.ownFaults_readAll rows)) fun es ↦ h.pure _
  | aggregate q function => exact h.bind (h.fetchValue q) fun v ↦ h.pure _

theorem followUp (o : FetchOptions) (e : Entity) (r : Relation) : P Entity (followUp o e r) := by
  rw [Session.followUp]
  split
  · exact h.pure e
  · refine h.bind h.get fun s ↦ ?_
    refine h.bind (h.lift (FollowUp.ownFaults_ofRelation s.registry r e _)) fun f ↦ ?_
    exact h.bind (h.load f) fun data ↦ h.lift (e.ownFaults_setLoaded r.name data)

theorem followUps (o : FetchOptions) (e : Entity) : P Entity (followUps o e) :=
  h.foldlM (h.followUp o) e.model.relations e

theorem primaryQuery (m : Model) (o : FetchOptions) (id : Option Value) :
    P EntityQuery (primaryQuery m o id) :=
  h.bind h.get fun s ↦ h.lift (EntityQuery.ownFaults_primary s.registry m o s.config id)

theorem readFirst (m : Model) (o : FetchOptions) (id : Option Value) :
    P (Option Entity) (readFirst m o id) := by
  refine h.bind (h.primaryQuery m o id) fun q ↦ h.bind (h.fetchOne q.query) fun row ↦ ?_
  cases row with
  | none => exact h.pure none
  | some row => exact h.bind (h.lift (q.ownFaults_read row)) fun e ↦ h.map (h.followUps o e) some

theorem findById? (name : String) (id : Value) (o : FetchOptions) :
    P (Option Entity) (findById? name id o) :=
  h.bind (h.model name) fun m ↦ h.readFirst m o (some id)

theorem findById (name : String) (id : Value) (o : FetchOptions) :
    P Entity (findById name id o) := by
  refine h.bind (h.findById? name id o) fun e ↦ ?_
  cases e with
  | some e => exact h.pure e
  | none => exact h.throw rfl

theorem find? (name : String) (o : FetchOptions) : P (Option Entity) (find? name o) :=
  h.bind (h.model name) fun m ↦ h.readFirst m o none

theorem findAll (name : String) (o : FetchOptions) : P (List Entity) (findAll name o) := by
  refine h.bind (h.model name) fun m ↦ h.bind (h.primaryQuery m o none) fun q ↦ ?_
  refine h.bind (h.fetchAll q.query) fun rows ↦ ?_
  refine h.bind (h.lift (q.ownFaults_readAll rows)) fun es ↦ ?_
  exact h.mapM (h.followUps o) es

theorem count (name : String) (o : FetchOptions) : P Nat (count name o) := by
  refine h.bind (h.model name) fun m ↦ h.bind (h.lift (Query.ownFaults_countOf m o)) fun q ↦ ?_
  exact h.bind (h.fetchOne q) fun row ↦ h.lift (ownFaults_countOfRow row)

theorem list (name : String) (o : FetchOptions) : P Listing (list name o) :=
  h.bind (h.findAll name o) fun _ ↦ h.bind (h.count name o) fun _ ↦ h.pure _

theorem countRelated (e : Entity) (relation : String) : P Nat (countRelated e relation) := by
  refine h.bind (h.lift (e.model.ownFaults_relation relation)) fun r ↦ h.bind h.get fun s ↦ ?_
  refine h.bind (h.lift (Query.ownFaults_countRelated s.registry r e)) fun q ↦ ?_
  exact h.bind (h.fetchOne q) fun row ↦ h.lift (ownFaults_countOfRow row)

end ComposesReads

structure ComposesWrites (P : ∀ α : Type, SessionM σ α → Prop) : Prop extends Composes P where
  execute : ∀ st : Statement, P Unit (execute st)

namespace ComposesWrites

variable (h : ComposesWrites P)
include h

theorem executes (ss : List Statement) : P Unit (ss.forM Session.execute) :=
  h.forM h.execute ss

theorem reconcile (m : Model) (owner : Value) (l : LinkChange) (actual : List Value) :
    P Unit (reconcile m owner l actual) :=
  h.bind (h.lift m.ownFaults_idName) fun _ ↦ h.forM (fun op : LinkOp ↦ h.execute op.statement) _

theorem updateLinked (m : Model) (u : Option Update)
    (ls : List (Value × LinkChange × List Value)) : P Unit (updateLinked m u ls) := by
  refine h.bind ?_ fun _ ↦ h.forM (fun x ↦ h.reconcile m x.1 x.2.1 x.2.2) ls
  cases u with
  | some u => exact h.execute (.update u)
  | none => exact h.pure ()

theorem work (hid : P Value fetchInsertId) (w : Work) : P (Option Value) w.run := by
  cases w with
  | insert m i links =>
    refine h.map (h.bind (h.execute _) fun _ ↦ h.bind hid fun id ↦ ?_) some
    exact h.bind (h.forM (fun l ↦ h.reconcile m id l []) links) fun _ ↦ h.pure id
  | update m u links => exact h.bind (h.updateLinked m u links) fun _ ↦ h.pure none
  | batch ss => exact h.bind (h.executes ss) fun _ ↦ h.pure none

end ComposesWrites

end RelMapper.Session
