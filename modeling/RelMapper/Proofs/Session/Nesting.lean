import RelMapper.Database.Script
import RelMapper.Proofs.Session.Atomicity
namespace RelMapper

open Session Log DatabaseCall

namespace Log

def CommitsInside (l : Log) : Prop :=
  ∃ l₁ l₂, l = l₁ ++ (.commit, none) :: l₂ ∧ executed l₁ ≠ []

def EndsUndone (l : Log) : Prop :=
  l.Pairwise fun c d ↦ c.1 = .rollback → d.1 = .rollback

end Log

namespace Ledger

variable {k : Ledger} {l : Log}

theorem exists_commit (h : k.committed ≠ (k.after l).committed) :
    ∃ l₁ l₂, l = l₁ ++ (.commit, none) :: l₂ ∧ (k.after l₁).pending ≠ [] := by
  induction l generalizing k with
  | nil => exact absurd rfl h
  | cons c cs ih =>
    by_cases hstep : k.committed = (k.step c).committed
    · have hrest : (k.step c).committed ≠ ((k.step c).after cs).committed := by
        rw [← hstep]
        exact h
      obtain ⟨l₁, l₂, rfl, hp⟩ := ih hrest
      exact ⟨c :: l₁, l₂, rfl, hp⟩
    · have hc : c = (.commit, none) := by
        refine Classical.byContradiction fun hc ↦ hstep ?_
        exact (committed_step k hc).symm
      subst hc
      refine ⟨[], cs, rfl, fun hp ↦ hstep ?_⟩
      have hk : k.pending = [] := hp
      change k.committed = k.committed ++ k.pending
      rw [hk, List.append_nil]

theorem committed_eq_nil_iff (h : l.EndsUndone) :
    (after {} l).committed = [] ↔ ¬l.CommitsInside := by
  constructor
  · rintro hnil ⟨l₁, l₂, rfl, hne⟩
    obtain ⟨-, -, hundone⟩ := List.pairwise_append.mp h
    have hl₁ : ∀ c ∈ l₁, c.1 ≠ .rollback := by
      intro c hc hr
      cases hundone c hc _ List.mem_cons_self hr
    have hkept := committed_append_pending hl₁ {}
    have hprefix := committed_prefix ((after {} l₁).step (.commit, none)) l₂
    have hafter : after {} (l₁ ++ (.commit, none) :: l₂) =
        ((after {} l₁).step (.commit, none)).after l₂ := after_append {} l₁ _
    rw [hafter] at hnil
    rw [hnil, List.prefix_nil] at hprefix
    refine hne ?_
    rw [← hprefix]
    exact hkept.symm
  · intro hn
    refine Classical.byContradiction fun hne ↦ hn ?_
    obtain ⟨l₁, l₂, hl, hp⟩ := exists_commit (k := {}) (Ne.symm hne)
    obtain ⟨x, hx⟩ := List.exists_mem_of_ne_nil _ hp
    exact ⟨l₁, l₂, hl, List.ne_nil_of_mem (pending_subset {} l₁ x hx)⟩

end Ledger

variable {σ α β : Type}

def logOf (x : SessionM (Recorded σ) α) (s : Session (Recorded σ)) : Log :=
  (x.run s).2.database.history.drop s.database.history.length

theorem logOf_eq {x : SessionM (Recorded σ) α} {s : Session (Recorded σ)} {l : Log}
    (h : (x.run s).2.database.history = s.database.history ++ l) : logOf x s = l := by
  rw [logOf, h, List.drop_left]

/-- Nothing has been undone by a computation that succeeds, and nothing has been done after what
was undone by one that fails. -/
def Ran (l : Log) : Except Fault α → Prop
  | .ok _ => ∀ c ∈ l, c.1 ≠ .rollback
  | .error _ => l.EndsUndone

theorem EndsUndone.prepend {l l' : Log} (h : l'.EndsUndone) (hl : ∀ c ∈ l, c.1 ≠ .rollback) :
    EndsUndone (l ++ l') := by
  induction l with
  | nil => exact h
  | cons c cs ih =>
    obtain ⟨hc, hcs⟩ := List.forall_mem_cons.mp hl
    exact List.pairwise_cons.mpr ⟨fun d _ hr ↦ absurd hr hc, ih hcs⟩

theorem EndsUndone.append {l l' : Log} (h : l.EndsUndone) (hl : ∀ c ∈ l', c.1 = .rollback) :
    EndsUndone (l ++ l') := by
  refine List.pairwise_append.mpr ⟨h, ?_, fun c _ d hd _ ↦ hl d hd⟩
  exact List.pairwise_of_forall_mem_list fun c _ d hd _ ↦ hl d hd

theorem endsUndone_of_ne {l : Log} (hl : ∀ c ∈ l, c.1 ≠ .rollback) : l.EndsUndone := by
  have h : EndsUndone (l ++ []) := EndsUndone.prepend List.Pairwise.nil hl
  rwa [List.append_nil] at h

theorem Ran.prepend {l l' : Log} {r : Except Fault α} (h : Ran l' r)
    (hl : ∀ c ∈ l, c.1 ≠ .rollback) : Ran (l ++ l') r := by
  cases r with
  | ok a => exact List.forall_mem_append.mpr ⟨hl, h⟩
  | error e => exact EndsUndone.prepend h hl

theorem Ran.endsUndone {l : Log} {r : Except Fault α} (h : Ran l r) : l.EndsUndone := by
  cases r with
  | ok a => exact endsUndone_of_ne h
  | error e => exact h

def Orderly (x : SessionM (Recorded σ) α) : Prop :=
  ∀ s, ∃ l : Log, (x.run s).2.database.history = s.database.history ++ l ∧ Ran l (x.run s).1

theorem Traced.orderly {C : DatabaseCall → Prop} {x : SessionM (Recorded σ) α} (h : Traced C x)
    (hc : ∀ c, C c → c.isEnd = false) : Orderly x := by
  intro s
  obtain ⟨l, hl, hl', ht⟩ := h s
  have hopen : l.Open := fun c hm ↦ hc c.1 (hl' c hm)
  have hne : ∀ c ∈ l, c.1 ≠ .rollback := fun c hm ↦ hopen.ne rfl hm
  refine ⟨l, hl, ?_⟩
  cases (x.run s).1 with
  | ok a => exact hne
  | error e => exact endsUndone_of_ne hne

theorem Orderly.bind {x : SessionM (Recorded σ) α} {f : α → SessionM (Recorded σ) β}
    (hx : Orderly x) (hf : ∀ a, Orderly (f a)) : Orderly (x >>= f) := by
  intro s
  exact exists_log_bind Ran Ran (hx s) hf (fun l e h ↦ h) fun l a l' r h h' ↦ h'.prepend h

variable [Database σ]

theorem Orderly.transaction {x : SessionM (Recorded σ) α} (h : Orderly x) :
    Orderly (Session.transaction x) := by
  intro s
  obtain ⟨l, hl, hr⟩ := h s
  obtain ⟨c, hc, hclosing⟩ := closing_transaction x s
  refine ⟨l ++ c, by rw [hc, hl, List.append_assoc], ?_⟩
  generalize (x.run s).1 = r at hr hclosing
  generalize ((Session.transaction x).run s).1 = r' at hclosing
  cases hclosing with
  | committed a => exact List.forall_mem_append.mpr ⟨hr, by simp⟩
  | uncommitted a f r =>
    have hcommit : ∀ c ∈ l ++ [(.commit, some f)], c.1 ≠ .rollback :=
      List.forall_mem_append.mpr ⟨hr, by simp⟩
    have hrollback : ∀ c ∈ [(DatabaseCall.rollback, r)], c.1 = .rollback := by simp
    have hlast := EndsUndone.append (endsUndone_of_ne hcommit) hrollback
    rwa [List.append_assoc] at hlast
  | undone e r => exact EndsUndone.append hr (by simp)

theorem orderly_write (w : Write) : Orderly (w.run : SessionM (Recorded σ) (Option Value)) := by
  rw [w.run_eq]
  refine Orderly.bind ((traced_plan w).orderly fun _ h ↦ h.1) fun work ↦ ?_
  cases work with
  | none => exact Traced.orderly (traced_pure none) fun _ h ↦ h
  | some work => exact Orderly.transaction ((traced_work work).orderly fun _ h ↦ h)

theorem traced_call {c : Call} (h : ∀ w, c ≠ .write w) :
    Traced IsInner (c.run : SessionM (Recorded σ) Reply) := by
  cases c with
  | execute s => exact (traced_inner s).bind fun _ ↦ traced_pure Reply.done
  | fetchOne s =>
    have hs : Traced IsInner (Session.fetchOne s : SessionM (Recorded σ) (Option Row)) :=
      traced_fetchOne rfl rfl
    exact hs.map Reply.row
  | fetchAll s =>
    have hs : Traced IsInner (Session.fetchAll s : SessionM (Recorded σ) (List Row)) :=
      traced_fetchAll rfl rfl
    exact hs.map Reply.rows
  | write w => exact absurd rfl (h w)

theorem orderly_call (c : Call) : Orderly (c.run : SessionM (Recorded σ) Reply) := by
  cases c with
  | write w =>
    have h : Orderly (w.run : SessionM (Recorded σ) (Option Value)) := orderly_write w
    rw [Call.run, ← bind_pure_comp]
    exact h.bind fun v ↦ (traced_pure _).orderly fun _ h ↦ h
  | execute s =>
    have h : ∀ w, Call.execute s ≠ .write w := nofun
    exact (traced_call h).orderly fun _ h ↦ h
  | fetchOne s =>
    have h : ∀ w, Call.fetchOne s ≠ .write w := nofun
    exact (traced_call h).orderly fun _ h ↦ h
  | fetchAll s =>
    have h : ∀ w, Call.fetchAll s ≠ .write w := nofun
    exact (traced_call h).orderly fun _ h ↦ h

theorem orderly_program (p : Program) : Orderly (p.run : SessionM (Recorded σ) Reply) := by
  induction p with
  | stop r => exact (traced_lift r).orderly fun _ h ↦ h
  | call c next ih => exact (orderly_call c).bind ih
  | transaction inner next ih ih' => exact ih.transaction.bind ih'

namespace Program

/-- The program calls nothing that has a transaction of its own. -/
def Flat : Program → Prop
  | stop _ => True
  | call c next => (∀ w, c ≠ .write w) ∧ ∀ r, (next r).Flat
  | transaction .. => False

theorem traced_flat {p : Program} (h : p.Flat) :
    Traced IsInner (p.run : SessionM (Recorded σ) Reply) := by
  induction p with
  | stop r => exact traced_lift r
  | call c next ih =>
    exact (traced_call h.1).bind fun r ↦ ih r (h.2 r)
  | transaction inner next ih ih' => exact h.elim

/-- What a program does in a transaction is kept as a whole if the transaction succeeds, by one
commit after everything else, and is not kept at all if it fails. -/
structure AllOrNothing (p : Program) (s : Session (Recorded σ)) : Prop where
  nothing : ∀ e, ((Session.transaction p.run).run s).1 = .error e →
    (Ledger.after {} (logOf (Session.transaction p.run) s)).committed = []
  all : ∀ r, ((Session.transaction p.run).run s).1 = .ok r →
    logOf (Session.transaction p.run) s = logOf p.run s ++ [(.commit, none)] ∧
    (Ledger.after {} (logOf p.run s)).committed = [] ∧
    (Ledger.after {} (logOf (Session.transaction p.run) s)).committed = executed (logOf p.run s)

variable (p : Program) (s : Session (Recorded σ))

theorem endsUndone_log : (logOf p.run s).EndsUndone := by
  obtain ⟨l, hl, hr⟩ := orderly_program p s
  rw [logOf_eq hl]
  exact hr.endsUndone

theorem log_transaction : ∃ c, logOf (Session.transaction p.run) s = logOf p.run s ++ c ∧
    Closing (p.run.run s).1 c ((Session.transaction p.run).run s).1 := by
  obtain ⟨l, hl, -⟩ := orderly_program p s
  obtain ⟨c, hc, hclosing⟩ := closing_transaction p.run s
  rw [hl, List.append_assoc] at hc
  refine ⟨c, ?_, hclosing⟩
  rw [logOf_eq hl, logOf_eq hc]

theorem committed_of_error (e : Fault)
    (h : ((Session.transaction p.run).run s).1 = .error e) :
    (Ledger.after {} (logOf (Session.transaction p.run) s)).committed =
      (Ledger.after {} (logOf p.run s)).committed := by
  obtain ⟨c, hc, hclosing⟩ := log_transaction p s
  have hcommit : (.commit, none) ∉ c := by
    rw [h] at hclosing
    generalize (p.run.run s).1 = r at hclosing
    cases hclosing with
    | uncommitted a f r => simp
    | undone e r => simp
  rw [hc, Ledger.after_append, Ledger.committed_after hcommit]

theorem committed_of_ok (r : Reply) (h : ((Session.transaction p.run).run s).1 = .ok r) :
    logOf (Session.transaction p.run) s = logOf p.run s ++ [(.commit, none)] ∧
    (Ledger.after {} (logOf (Session.transaction p.run) s)).committed =
      executed (logOf p.run s) := by
  obtain ⟨l, hl, hran⟩ := orderly_program p s
  obtain ⟨c, hc, hclosing⟩ := log_transaction p s
  rw [h] at hclosing
  generalize (p.run.run s).1 = r' at hran hclosing
  cases hclosing with
  | committed =>
    refine ⟨hc, ?_⟩
    rw [hc, logOf_eq hl, Ledger.after_append]
    exact Ledger.committed_append_pending hran {}

/-- A transaction is all or nothing unless the program in it commits something itself, which
takes a write or a transaction in the program. All is kept in any case if it succeeds. -/
theorem allOrNothing_iff :
    (AllOrNothing p s ↔ ¬CommitsInside (logOf p.run s)) ∧
    (p.Flat → ¬CommitsInside (logOf p.run s)) ∧
    ∀ r, ((Session.transaction p.run).run s).1 = .ok r →
      (Ledger.after {} (logOf (Session.transaction p.run) s)).committed =
        executed (logOf p.run s) := by
  rw [← Ledger.committed_eq_nil_iff (endsUndone_log p s)]
  refine ⟨⟨fun h ↦ ?_, fun h ↦ ⟨fun e he ↦ ?_, fun r hr ↦ ?_⟩⟩, fun hp ↦ ?_, fun r hr ↦ ?_⟩
  · cases hr : ((Session.transaction p.run).run s).1 with
    | ok r => exact (h.all r hr).2.1
    | error e =>
      rw [← committed_of_error p s e hr]
      exact h.nothing e hr
  · rw [committed_of_error p s e he]
    exact h
  · obtain ⟨hlog, hkept⟩ := committed_of_ok p s r hr
    exact ⟨hlog, h, hkept⟩
  · obtain ⟨l, hl, ho, -⟩ := traced_flat hp s
    rw [logOf_eq hl]
    have hopen : l.Open := ho
    exact Ledger.committed_after (fun hm ↦ hopen.ne rfl hm rfl) {}
  · exact (committed_of_ok p s r hr).2

/-- A created row stays although the next statement of the same transaction fails. -/
theorem created_row_kept :
    let film : Model := { name := "Film", table := some "film",
                          fields := [{ name := "film_id", kind := .integer, primaryKey := true },
                            { name := "title", kind := .string }] }
    let script : Script := { results := [[[.bigInt 1]]],
                             rules := [⟨.execute, .mentions "DELETE", "locked"⟩] }
    let session : Session (Recorded Script) := { database := ⟨script, []⟩, registry := ⟨[film]⟩ }
    let delete : Delete := ⟨"film", .columnIs (.qualified "film" "film_id") (.bigInt 2)⟩
    let program : Program := .call (.write (.create "Film" [("title", .text "Alien")])) fun _ ↦
      .call (.execute (.delete delete)) fun r ↦ .stop (.ok r)
    ((Session.transaction program.run).run session).1.isOk = false ∧
      ¬AllOrNothing program session := by
  intro film script session delete program
  refine ⟨by decide +kernel, ?_⟩
  rw [(allOrNothing_iff program session).1,
    ← Ledger.committed_eq_nil_iff (endsUndone_log program session)]
  intro hnil
  have hkept : (Ledger.after {} (logOf program.run session)).committed.length = 2 := by
    decide +kernel
  rw [hnil] at hkept
  cases hkept

end Program

end RelMapper
