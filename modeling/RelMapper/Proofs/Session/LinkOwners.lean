import Mathlib.Data.List.TakeWhile
import RelMapper.Database.Script
import RelMapper.Proofs.Session.Nesting
import RelMapper.Proofs.Session.Runs
namespace RelMapper

open Session Log DatabaseCall

inductive Write.Saves : Write → Prop
  | create (name : String) (data : List (String × Value)) : Saves (.create name data)
  | update (name : String) (condition : Option Predicate) (data : List (String × Value))
    (loaded : Option Entity) : Saves (.update name condition data loaded)
  | updateById (name : String) (id : Value) (data : List (String × Value)) :
    Saves (.updateById name id data)

def isUpdateText (sql : String) : Bool :=
  "UPDATE".toList.isPrefixOf sql.toList

def Log.unlikeUpdates (l : Log) : List (String × List Value) :=
  l.issued.filter fun st ↦ isWriteText st.1 && !isUpdateText st.1

/-- What has been written after the first two statements of those that do not come before all
writing. -/
def Log.afterInsertion (l : Log) : List (String × List Value) :=
  (l.issued.dropWhile fun st ↦ !isWriteText st.1).drop 2

/-- The statements of a write that link and unlink, given its log. A create begins to write with the
insertion of its row and the query for the new id, and all that follows are links; an update writes
nothing else besides the update of its row. -/
def Write.linking : Write → Log → List (String × List Value)
  | create .. => Log.afterInsertion
  | _ => Log.unlikeUpdates

/-- The owners that a write may link: the id that it is told to update, or else all but null. -/
def Write.MayLink : Write → Value → Prop
  | updateById _ id _, owner => owner = id
  | _, owner => owner.isNull = false

theorem Write.MayLink.isNull_eq_false {w : Write} {owner : Value} (h : w.MayLink owner)
    (hother : ∀ name data, w ≠ .updateById name .null data) : owner.isNull = false := by
  cases w with
  | updateById name id data =>
    obtain rfl : owner = id := h
    cases owner with
    | null => exact absurd rfl (hother name data)
    | _ => rfl
  | _ => exact h

/-- Writes that are made one after the other, each with its log. One that fails does not keep the
next one from being made. -/
def Write.history {σ : Type} [Database σ] : List Write → Session (Recorded σ) → List (Write × Log)
  | [], _ => []
  | w :: ws, s => (w, logOf w.run s) :: history ws (w.run.run s).2

def BindsOwner (owner : Value) (binds : List Value) : Prop :=
  ∃ foreign, binds = [owner, foreign]

def DatabaseCall.Executes (P : String → List Value → Prop) : DatabaseCall → Prop
  | execute sql binds => P sql binds
  | _ => True

theorem Statement.isUpdateText_update (u : Update) : isUpdateText (update u).sql = true := by
  rw [sql_eq, fragment, Update.fragment, Fragment.sql_lines, List.map_cons, Fragment.sql_ofText,
    Clause.updateLine, String.intercalate_cons_append, isUpdateText, List.isPrefixOf_iff_prefix,
    String.toList_append]
  exact ⟨' ' :: _, rfl⟩

namespace Log

variable {l l' : Log} {P : String → List Value → Prop}

theorem forall_mem_issued (h : ∀ c ∈ l, Executes P c.1) : ∀ st ∈ l.issued, P st.1 st.2 := by
  intro st hst
  obtain ⟨⟨call, fault⟩, hc, hcall⟩ := List.mem_filterMap.mp hst
  cases call with
  | execute sql binds =>
    obtain rfl := Option.some.inj hcall
    exact h _ hc
  | fetchOne => cases hcall
  | fetchAll => cases hcall
  | commit => cases hcall
  | rollback => cases hcall

theorem isWriteText_of_reads (h : ∀ c ∈ l, IsRead c.1) :
    ∀ st ∈ l.issued, isWriteText st.1 = false := by
  refine forall_mem_issued (P := fun sql _ ↦ isWriteText sql = false) fun c hc ↦ ?_
  obtain ⟨call, fault⟩ := c
  cases call with
  | execute sql binds => exact (h _ hc).2
  | fetchOne => trivial
  | fetchAll => trivial
  | commit => trivial
  | rollback => trivial

end Log

section Plan

variable {σ : Type} [Database σ] {m : Model} {s t : Session σ}

theorem owner_of_linkChanges {owner : Option Value} {loaded : Option Entity}
    {cs : List LinkChange} {ls : List (Value × LinkChange × List Value)}
    (hrun : (linkChanges m owner loaded cs).run s = (.ok ls, t)) :
    ∀ x ∈ ls, owner = some x.1 := by
  cases cs with
  | nil =>
    obtain ⟨rfl, -⟩ := run_pure_eq_ok.mp hrun
    exact nofun
  | cons c cs =>
    cases owner with
    | none => cases hrun
    | some id =>
      have hall : ((c :: cs).mapM fun l ↦ do return (id, l, ← linkedIds m id loaded l) :
          SessionM σ _).run s = (.ok ls, t) := hrun
      obtain ⟨-, hall⟩ := run_mapM_keeps (P := fun _ ↦ True) (fun _ _ ↦ trivial) trivial hall
      intro x hx
      obtain ⟨l, -, s₁, t₁, -, hl⟩ := exists_of_forall₂ hall hx
      obtain ⟨ids, t', -, hl⟩ := run_bind_eq_ok.mp hl
      obtain ⟨rfl, -⟩ := run_pure_eq_ok.mp hl
      rfl

theorem owner_of_planUpdate {p : Predicate} {data : List (String × Value)} {owner : Option Value}
    {loaded : Option Entity} {work : Work}
    (hrun : (Write.planUpdate m p data owner loaded).run s = (.ok (some work), t)) :
    ∃ u ls, work = .update m u ls ∧ ∀ x ∈ ls, owner = some x.1 := by
  obtain ⟨changes, s₁, -, hrun⟩ := run_bind_eq_ok.mp hrun
  obtain ⟨ls, s₂, hlinks, hrun⟩ := run_bind_eq_ok.mp hrun
  obtain ⟨u, s₃, -, hrun⟩ := run_bind_eq_ok.mp hrun
  split at hrun
  · cases hrun
  · obtain ⟨hwork, -⟩ := run_pure_eq_ok.mp hrun
    exact ⟨u, ls, (Option.some.inj hwork).symm, owner_of_linkChanges hlinks⟩

theorem isNull_of_ownerId {loaded : Option Entity} {id : Value}
    (h : ownerId loaded = .ok (some id)) : id.isNull = false := by
  cases loaded with
  | none => cases h
  | some e =>
    obtain ⟨v, -, hv⟩ := map_eq_ok.mp h
    split at hv
    · cases hv
    · next hnull =>
      obtain rfl := Option.some.inj hv
      exact Bool.eq_false_iff.mpr hnull

theorem owner_of_plan {w : Write} (hw : w.Saves) {work : Work}
    (hrun : w.plan.run s = (.ok (some work), t)) :
    (∃ name data m i ls, w = .create name data ∧ work = .insert m i ls) ∨
    ∃ m u ls, w.linking = Log.unlikeUpdates ∧ work = .update m u ls ∧ ∀ x ∈ ls, w.MayLink x.1 := by
  cases hw with
  | create name data =>
    obtain ⟨m, s₁, -, hrun⟩ := run_bind_eq_ok.mp hrun
    obtain ⟨changes, s₂, -, hrun⟩ := run_bind_eq_ok.mp hrun
    obtain ⟨table, s₃, -, hrun⟩ := run_bind_eq_ok.mp hrun
    obtain ⟨i, s₄, -, hrun⟩ := run_bind_eq_ok.mp hrun
    obtain ⟨hwork, -⟩ := run_pure_eq_ok.mp hrun
    exact .inl ⟨name, data, m, i, _, rfl, (Option.some.inj hwork).symm⟩
  | update name p data loaded =>
    obtain ⟨m, s₁, -, hrun⟩ := run_bind_eq_ok.mp hrun
    obtain ⟨owner, s₂, hlift, hrun⟩ := run_bind_eq_ok.mp hrun
    obtain ⟨howner, -⟩ := run_lift_eq_ok.mp hlift
    obtain ⟨q, s₃, hplan⟩ : ∃ q s₃,
        (Write.planUpdate m q data owner loaded).run s₃ = (.ok (some work), t) := by
      cases p with
      | some p => exact ⟨p, s₂, hrun⟩
      | none =>
        cases owner with
        | none => cases hrun
        | some id =>
          obtain ⟨q, s₃, -, hrun⟩ := run_bind_eq_ok.mp hrun
          exact ⟨q, s₃, hrun⟩
    obtain ⟨u, ls, rfl, hls⟩ := owner_of_planUpdate hplan
    refine .inr ⟨m, u, ls, rfl, rfl, fun x hx ↦ ?_⟩
    exact isNull_of_ownerId (howner.trans (congrArg _ (hls x hx)))
  | updateById name id data =>
    obtain ⟨m, s₁, -, hrun⟩ := run_bind_eq_ok.mp hrun
    obtain ⟨q, s₂, -, hrun⟩ := run_bind_eq_ok.mp hrun
    obtain ⟨u, ls, rfl, hls⟩ := owner_of_planUpdate hrun
    exact .inr ⟨m, u, ls, rfl, rfl, fun x hx ↦ (Option.some.inj (hls x hx)).symm⟩

end Plan

section Work

variable {σ : Type} [Database σ] {P : String → List Value → Prop}

theorem traced_reconcile_owner (m : Model) {owner : Value} (l : LinkChange) (actual : List Value)
    (h : ∀ sql binds, BindsOwner owner binds → P sql binds) :
    Traced (Executes P) (reconcile m owner l actual : SessionM (Recorded σ) Unit) := by
  refine (traced_lift m.idName).bind fun column ↦ composes_traced.forM_of_mem fun op hop ↦ ?_
  have howner : op.target.owner = owner := congrArg Link.owner (Links.target_reconcile op hop)
  have hexecutes : Executes P (.execute op.statement.sql op.statement.binds) :=
    h _ _ ⟨op.target.foreign, howner ▸ op.binds_statement⟩
  exact traced_execute hexecutes

theorem traced_updateLinked (m : Model) (u : Option Update)
    {ls : List (Value × LinkChange × List Value)}
    (h : ∀ x ∈ ls, ∀ sql binds, BindsOwner x.1 binds → P sql binds)
    (hupdate : ∀ u : Update, P (Statement.update u).sql (Statement.update u).binds) :
    Traced (Executes P) (updateLinked m u ls : SessionM (Recorded σ) Unit) := by
  refine Traced.bind ?_ fun _ ↦ composes_traced.forM_of_mem fun x hx ↦ ?_
  · cases u with
    | some u =>
      have hexecutes : Executes P (.execute (Statement.update u).sql (Statement.update u).binds) :=
        hupdate u
      exact traced_execute hexecutes
    | none => exact traced_pure ()
  · exact traced_reconcile_owner m x.2.1 x.2.2 (h x hx)

theorem issued_fetchInsertId (s : Session (Recorded σ)) :
    ∃ l : Log, (fetchInsertId.run s).2.database.history = s.database.history ++ l ∧
      l.issued = [(s.config.lastInsertIdSql, [])] ∧
      ∀ id, (fetchInsertId.run s).1 = .ok id → id.isNull = false := by
  obtain ⟨f, hf, hget⟩ : ∃ f : Option Row → SessionM (Recorded σ) Value,
      (∀ row u, ((f row).run u).2.database = u.database ∧
        ∀ id, ((f row).run u).1 = .ok id → id.isNull = false) ∧
      fetchInsertId.run s = (Session.run s.config.lastInsertIdSql [] >>= fun _ ↦
        onStatement s.config.lastInsertIdSql [] Database.fetchOne >>= f).run s := by
    refine ⟨_, fun row u ↦ ?_, rfl⟩
    split
    · exact ⟨rfl, nofun⟩
    · exact ⟨rfl, nofun⟩
    · next id hnull _ =>
      refine ⟨rfl, ?_⟩
      rintro _ ⟨⟩
      cases id with
      | null => exact absurd rfl hnull
      | _ => rfl
  rw [hget, run_bind]
  rcases run_run s with ⟨t, hr, hl⟩ | ⟨e, t, hr, hl⟩
  · rw [hr]
    dsimp only
    rw [run_bind]
    rcases run_onStatement_record s.config.lastInsertIdSql [] .fetchOne Database.fetchOne t with
      ⟨row, u, hr', hl'⟩ | ⟨e, u, hr', hl'⟩
    · have hfetch : (onStatement s.config.lastInsertIdSql [] Database.fetchOne).run t =
          (.ok row, u) := hr'
      rw [hfetch]
      refine ⟨[(.execute s.config.lastInsertIdSql [], none), (.fetchOne, none)], ?_, rfl,
        (hf row u).2⟩
      exact (congrArg Recorded.history (hf row u).1).trans (hl.trans hl')
    · have hfetch : (onStatement s.config.lastInsertIdSql [] Database.fetchOne).run t =
          (.error (.ofStatement s.config.lastInsertIdSql [] e), u) := hr'
      rw [hfetch]
      exact ⟨_, hl.trans hl', rfl, nofun⟩
  · rw [hr]
    exact ⟨_, hl, rfl, nofun⟩

theorem issued_insertLinked (m : Model) (i : Insert) (ls : List LinkChange)
    (s : Session (Recorded σ)) :
    ∃ l : Log, ((insertLinked m i ls).run s).2.database.history = s.database.history ++ l ∧
      ∃ rest, l.issued = ((Statement.insert i).sql, (Statement.insert i).binds) :: rest ∧
        ∀ st ∈ rest.drop 1, ∃ owner, BindsOwner owner st.2 ∧ owner.isNull = false := by
  have hinsert : (insertLinked m i ls).run s = (execute (.insert i) >>= fun _ ↦
      fetchInsertId >>= fun id ↦ do ls.forM fun l ↦ reconcile m id l []; return id).run s := rfl
  rw [hinsert, run_bind]
  rcases run_execute (.insert i) s with ⟨t, hr, hl⟩ | ⟨f, t, hr, hl⟩
  · rw [hr]
    dsimp only
    rw [run_bind]
    obtain ⟨l, hl', hissued, hnull⟩ := issued_fetchInsertId t
    rcases hid : fetchInsertId.run t with ⟨e | id, u⟩
    · rw [hid] at hl'
      refine ⟨(.execute (Statement.insert i).sql (Statement.insert i).binds, none) :: l, ?_,
        l.issued, rfl, ?_⟩
      · rw [hl', hl, List.append_assoc, List.singleton_append]
      · rw [hissued]
        exact nofun
    · rw [hid] at hl' hnull
      have howned : Traced (Executes fun _ binds ↦ BindsOwner id binds)
          (do ls.forM fun l ↦ reconcile m id l []; return id : SessionM (Recorded σ) Value) :=
        (composes_traced.forM (fun l ↦ traced_reconcile_owner m l [] fun _ _ h ↦ h) ls).bind fun _ ↦
          traced_pure id
      obtain ⟨l', hlinks, hbinds, -⟩ := howned u
      refine ⟨(.execute (Statement.insert i).sql (Statement.insert i).binds, none) :: (l ++ l'), ?_,
        (l ++ l').issued, rfl, ?_⟩
      · dsimp only
        rw [hlinks, hl', hl, List.append_assoc, List.append_assoc, List.singleton_append]
      · rw [issued_append, hissued]
        exact fun st hst ↦ ⟨id, forall_mem_issued hbinds st hst, hnull id rfl⟩
  · rw [hr]
    exact ⟨_, hl, [], rfl, nofun⟩

theorem issued_write (w : Write) (s : Session (Recorded σ)) :
    (∀ st ∈ (logOf w.run s).issued, isWriteText st.1 = false) ∨
    ∃ (reads body : Log) (work : Work) (t : Session (Recorded σ)),
      (∀ st ∈ reads.issued, isWriteText st.1 = false) ∧
      w.plan.run s = (.ok (some work), t) ∧
      (work.run.run t).2.database.history = t.database.history ++ body ∧
      (logOf w.run s).issued = reads.issued ++ body.issued := by
  obtain ⟨reads, hreads, hc, -⟩ := traced_plan w s
  have hreads' := isWriteText_of_reads hc
  rcases hplan : w.plan.run s with ⟨e | ⟨_ | work⟩, t⟩
  · have hrun : w.run.run s = (.error e, t) := by rw [w.run_eq, run_bind, hplan]
    rw [hplan] at hreads
    rw [logOf_eq (l := reads) (by rw [hrun]; exact hreads)]
    exact .inl hreads'
  · have hrun : w.run.run s = (.ok none, t) := by
      rw [w.run_eq, run_bind, hplan]
      rfl
    rw [hplan] at hreads
    rw [logOf_eq (l := reads) (by rw [hrun]; exact hreads)]
    exact .inl hreads'
  · have hrun : w.run.run s = (transaction work.run).run t := by
      rw [w.run_eq, run_bind, hplan]
      rfl
    rw [hplan] at hreads
    obtain ⟨body, hbody, -⟩ := traced_work work t
    obtain ⟨c, hclosing, hc⟩ := closing_transaction work.run t
    have hlog : (w.run.run s).2.database.history = s.database.history ++ (reads ++ (body ++ c)) := by
      rw [hrun, hclosing, hbody, hreads, List.append_assoc, List.append_assoc]
    refine .inr ⟨reads, body, work, t, hreads', rfl, hbody, ?_⟩
    rw [logOf_eq hlog, issued_append, issued_append, hc.issued_eq_nil, List.append_nil]

end Work

section Owned

variable {σ : Type} [Database σ]

theorem linking_of_reads (w : Write) {l : Log} (h : ∀ st ∈ l.issued, isWriteText st.1 = false) :
    w.linking l = [] := by
  have hinsertion : l.afterInsertion = [] := by
    have hskips : ∀ st ∈ l.issued, (!isWriteText st.1) = true := by
      intro st hst
      rw [h st hst]
      rfl
    rw [afterInsertion, List.dropWhile_eq_nil_iff.mpr hskips, List.drop_nil]
  have hupdates : l.unlikeUpdates = [] := by
    refine List.filter_eq_nil_iff.mpr fun st hst ↦ ?_
    rw [h st hst]
    exact Bool.false_ne_true
  cases w with
  | create name data => exact hinsertion
  | _ => exact hupdates

/-- Whatever a create or an update links or unlinks, it does so for an id that it may do so for. -/
theorem owner_of_linking {w : Write} (hw : w.Saves) (s : Session (Recorded σ)) :
    ∀ st ∈ w.linking (logOf w.run s), ∃ owner, BindsOwner owner st.2 ∧ w.MayLink owner := by
  obtain hreads | ⟨reads, body, work, t, hreads, hplan, hbody, hissued⟩ := issued_write w s
  · rw [linking_of_reads w hreads]
    exact nofun
  obtain ⟨name, data, m, i, ls, rfl, rfl⟩ | ⟨m, u, ls, hlinking, rfl, hls⟩ :=
    owner_of_plan hw hplan
  · obtain ⟨l, hl, rest, hrest, howned⟩ := issued_insertLinked m i ls t
    rw [Work.run, snd_run_map, hl] at hbody
    obtain rfl := List.append_cancel_left hbody
    have hskips : ∀ st ∈ reads.issued, (!isWriteText st.1) = true := by
      intro st hst
      rw [hreads st hst]
      rfl
    have hwrites : isWriteText (Statement.insert i).sql = true := (Statement.insert i).isWriteText_sql
    have hlater : (logOf (Write.create name data).run s).afterInsertion = rest.drop 1 := by
      rw [afterInsertion, hissued, hrest, List.dropWhile_append_of_pos hskips,
        List.dropWhile_cons_of_neg (by simp [hwrites]), List.drop_succ_cons]
    intro st hst
    obtain ⟨owner, hbinds, hnull⟩ := howned st (hlater ▸ hst)
    exact ⟨owner, hbinds, hnull⟩
  · have htraced : Traced (Executes fun sql binds ↦ isUpdateText sql = true ∨
        ∃ owner, BindsOwner owner binds ∧ w.MayLink owner)
        ((Work.update m u ls).run : SessionM (Recorded σ) (Option Value)) := by
      refine (traced_updateLinked m u (fun x hx sql binds h ↦ ?_) fun u ↦ ?_).bind fun _ ↦
        traced_pure none
      · exact .inr ⟨x.1, h, hls x hx⟩
      · exact .inl (Statement.isUpdateText_update u)
    obtain ⟨l, hl, hexecutes, -⟩ := htraced t
    rw [hl] at hbody
    obtain rfl := List.append_cancel_left hbody
    intro st hst
    rw [hlinking] at hst
    obtain ⟨hst, hlink⟩ := List.mem_filter.mp hst
    obtain ⟨hwrites, hrow⟩ := Bool.and_eq_true_iff.mp hlink
    rw [hissued] at hst
    rcases List.mem_append.mp hst with hst | hst
    · rw [hreads st hst] at hwrites
      cases hwrites
    · refine (forall_mem_issued hexecutes st hst).resolve_left fun hupdate ↦ ?_
      rw [hupdate] at hrow
      cases hrow

theorem forall_mem_history {P : Write × Log → Prop} {ws : List Write}
    (h : ∀ w ∈ ws, ∀ s : Session (Recorded σ), P (w, logOf w.run s)) (s : Session (Recorded σ)) :
    ∀ step ∈ Write.history ws s, P step := by
  induction ws generalizing s with
  | nil => exact nofun
  | cons w ws ih =>
    obtain ⟨hw, hws⟩ := List.forall_mem_cons.mp h
    exact List.forall_mem_cons.mpr ⟨hw s, ih hws _⟩

/-- Of the writes that create and update rows, one after the other, all link only ids that are not
null, but for an update by the id null that links or unlinks anything: it does so for null. -/
theorem owned_iff (ws : List Write) (hws : ∀ w ∈ ws, w.Saves) (s : Session (Recorded σ)) :
    (∀ step ∈ Write.history ws s, (∀ name data, step.1 ≠ .updateById name .null data) →
      ∀ st ∈ step.1.linking step.2, ∃ owner, BindsOwner owner st.2 ∧ owner.isNull = false) ∧
    ((∀ step ∈ Write.history ws s, ∀ st ∈ step.1.linking step.2,
        ∃ owner, BindsOwner owner st.2 ∧ owner.isNull = false) ↔
      ∀ step ∈ Write.history ws s, ∀ name data, step.1 = .updateById name .null data →
        step.1.linking step.2 = []) := by
  have hlinking : ∀ step ∈ Write.history ws s, ∀ st ∈ step.1.linking step.2,
      ∃ owner, BindsOwner owner st.2 ∧ step.1.MayLink owner :=
    forall_mem_history (fun w hw s ↦ owner_of_linking (hws w hw) s) s
  have howned : ∀ step ∈ Write.history ws s,
      (∀ name data, step.1 ≠ .updateById name .null data) →
      ∀ st ∈ step.1.linking step.2, ∃ owner, BindsOwner owner st.2 ∧ owner.isNull = false := by
    intro step hstep hother st hst
    obtain ⟨owner, hbinds, hmay⟩ := hlinking step hstep st hst
    exact ⟨owner, hbinds, hmay.isNull_eq_false hother⟩
  refine ⟨howned, fun hall step hstep name data hw ↦ ?_, fun hnone step hstep ↦ ?_⟩
  · refine List.eq_nil_iff_forall_not_mem.mpr fun st hst ↦ ?_
    obtain ⟨owner, ⟨foreign, hbinds⟩, hmay⟩ := hlinking step hstep st hst
    obtain ⟨owner', ⟨foreign', hbinds'⟩, hnull⟩ := hall step hstep st hst
    rw [hw] at hmay
    obtain rfl : owner = .null := hmay
    obtain ⟨rfl, -⟩ := List.cons.inj (hbinds.symm.trans hbinds')
    cases hnull
  · by_cases hother : ∀ name data, step.1 ≠ .updateById name .null data
    · exact howned step hstep hother
    · push Not at hother
      obtain ⟨name, data, hw⟩ := hother
      rw [hnone step hstep name data hw]
      exact nofun

/-- The row of a film that has been created is linked by its id, and then the update by the id null
links null. -/
theorem owned_by_null :
    let actors : Relation := .manyToMany "actors" "Actor" "film_actor" "actor_id"
    let film : Model := { name := "Film", table := some "film",
                          fields := [{ name := "film_id", kind := .integer, primaryKey := true },
                            { name := "title", kind := .string }],
                          relations := [actors] }
    let script : Script := { results := [[[.bigInt 7]], []], rules := [] }
    let s : Session (Recorded Script) := { database := ⟨script, []⟩, registry := ⟨[film]⟩ }
    let ws : List Write := [.create "Film" [("title", .text "Alien"), ("actors", .bigInt 1)],
      .updateById "Film" .null [("actors", .bigInt 1)]]
    let links (step : Write × Log) : List (List (Option Int64)) :=
      (step.1.linking step.2).map fun st ↦ st.2.map Value.asInt64
    (∀ w ∈ ws, w.Saves) ∧
      (Write.history ws s).map links = [[[some 7, some 1]], [[none, some 1]]] ∧
      ¬∀ step ∈ Write.history ws s, ∀ st ∈ step.1.linking step.2,
        ∃ owner, BindsOwner owner st.2 ∧ owner.isNull = false := by
  intro actors film script s ws links
  have hsaves : ∀ w ∈ ws, w.Saves :=
    List.forall_mem_cons.mpr ⟨.create _ _, List.forall_mem_singleton.mpr (.updateById _ _ _)⟩
  have hlinks : (Write.history ws s).map links = [[[some 7, some 1]], [[none, some 1]]] := by
    decide +kernel
  refine ⟨hsaves, hlinks, fun hall ↦ ?_⟩
  have hlast : (Write.updateById "Film" .null [("actors", .bigInt 1)], _) ∈ Write.history ws s :=
    List.mem_cons_of_mem _ List.mem_cons_self
  have hnone := (owned_iff ws hsaves s).2.mp hall _ hlast _ _ rfl
  have hlinked := hlinks ▸ List.mem_map_of_mem (f := links) hlast
  simp only [links, hnone, List.map_nil] at hlinked
  simp at hlinked

end Owned

end RelMapper
