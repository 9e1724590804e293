import RelMapper.Proofs.Session.InsertIds
import RelMapper.Proofs.Session.Trace
namespace RelMapper

open Session

namespace Log

/-- The faults of the calls that have failed, but for those that are meant to end a transaction. -/
def failures (l : Log) : List Fault :=
  l.filterMap fun c ↦ if c.1.isEnd then none else c.2

theorem failures_append (l l' : Log) : failures (l ++ l') = l.failures ++ l'.failures :=
  List.filterMap_append

/-- What is told after the calls of a log: the failure of the statement that was executed last, with
the fault of the one call that has failed, or else nothing of a statement. -/
inductive Explains {α : Type} (l : Log) : Except Fault α → Prop
  | unfailing {r : Except Fault α} : l.failures = [] → OwnFaults r → Explains l r
  | failed {sql : String} {binds : List Value} {issue : DatabaseIssue} {cause : Option Fault} :
    l.failures = [.database issue cause] → l.issued.getLast? = some (sql, binds) →
    Explains l (.error (.ofStatement sql binds (.database issue cause)))

variable {α β : Type} {l l' : Log}

theorem Explains.error {e : Fault} (h : Explains l (.error e : Except Fault α)) :
    Explains l (.error e : Except Fault β) := by
  cases h with
  | unfailing hnone hown => exact .unfailing hnone (.error (hown e rfl))
  | failed hfail hlast => exact .failed hfail hlast

theorem Explains.prepend {r : Except Fault α} (h : Explains l' r) (hl : l.failures = []) :
    Explains (l ++ l') r := by
  cases h with
  | unfailing hnone hown =>
    refine .unfailing ?_ hown
    rw [failures_append, hl, hnone, List.append_nil]
  | failed hfail hlast =>
    refine .failed ?_ ?_
    · rw [failures_append, hl, hfail, List.nil_append]
    · rw [issued_append, List.getLast?_append, hlast, Option.some_or]

theorem Explains.append {r : Except Fault α} (h : Explains l r) (hissued : l'.issued = [])
    (hfailures : l'.failures = []) : Explains (l ++ l') r := by
  cases h with
  | unfailing hnone hown =>
    refine .unfailing ?_ hown
    rw [failures_append, hnone, hfailures, List.append_nil]
  | failed hfail hlast =>
    refine .failed ?_ ?_
    · rw [failures_append, hfail, hfailures, List.append_nil]
    · rw [issued_append, hissued, List.append_nil, hlast]

end Log

open Log

def FailsAsDatabase {σ α : Type} (x : DatabaseM σ α) : Prop :=
  ∀ d e, (x.run d).1 = .error e → ∃ issue cause, e = .database issue cause

/-- A database of which no call fails but with a fault of the database itself. How it fails to undo
something is of no account. -/
structure ReportsIssues (σ : Type) [Database σ] : Prop where
  execute : ∀ sql binds, FailsAsDatabase (Database.execute sql binds : DatabaseM σ Unit)
  fetchOne : FailsAsDatabase (Database.fetchOne : DatabaseM σ (Option Row))
  fetchAll : FailsAsDatabase (Database.fetchAll : DatabaseM σ (List Row))
  commit : FailsAsDatabase (Database.commit : DatabaseM σ Unit)

theorem FailsAsDatabase.record {σ α : Type} {x : DatabaseM σ α} (h : FailsAsDatabase x)
    (call : DatabaseCall) : FailsAsDatabase (Recorded.record call x) := by
  intro d e he
  refine h d.database e ?_
  simp only [Recorded.record, ExceptT.run_mk] at he
  rcases hx : x.run d.database with ⟨e' | a, d'⟩
  · rw [hx] at he
    exact he
  · rw [hx] at he
    cases he

theorem reportsIssues_script : ReportsIssues Script := by
  have hcall {α : Type} (kind : CallKind) (sql : Option String) (act : Script → α × Script) :
      FailsAsDatabase (Script.call kind sql act) := by
    intro d e he
    simp only [Script.call, ExceptT.run_mk] at he
    split at he
    · cases he
      exact ⟨_, _, rfl⟩
    · cases he
  exact ⟨fun sql _ ↦ hcall _ _ _, hcall _ _ _, hcall _ _ _, hcall _ _ _⟩

variable {σ α β : Type} {s t u : Session (Recorded σ)} {l l' : Log}

/-- The calls of a log lead from one session to another, in which the last statement among them is
known. -/
structure Leads (l : Log) (s t : Session (Recorded σ)) : Prop where
  history : t.database.history = s.database.history ++ l
  lastSql : t.lastSql = (l.issued.getLast?.map Prod.fst).or s.lastSql

theorem Leads.of_same (hhistory : t.database.history = s.database.history)
    (hsql : t.lastSql = s.lastSql) : Leads [] s t :=
  ⟨hhistory.trans (List.append_nil _).symm, hsql⟩

theorem Leads.trans (h : Leads l s t) (h' : Leads l' t u) : Leads (l ++ l') s u where
  history := by rw [h'.history, h.history, List.append_assoc]
  lastSql := by
    rw [h'.lastSql, h.lastSql, issued_append, List.getLast?_append, Option.map_or, Option.or_assoc]

/-- Wherever it starts, `x` fails as a statement just if one of its calls fails, and then names the
statement that was executed last. -/
def NamesFailures (x : SessionM (Recorded σ) α) : Prop :=
  ∀ s, ∃ l : Log, Leads l s (x.run s).2 ∧ Explains l (x.run s).1

theorem NamesFailures.bind {x : SessionM (Recorded σ) α} {f : α → SessionM (Recorded σ) β}
    (hx : NamesFailures x) (hf : ∀ a, NamesFailures (f a)) : NamesFailures (x >>= f) := by
  intro s
  obtain ⟨l, hl, hnamed⟩ := hx s
  rw [run_bind]
  rcases hrun : x.run s with ⟨e | a, t⟩
  · rw [hrun] at hl hnamed
    exact ⟨l, hl, hnamed.error⟩
  · rw [hrun] at hl hnamed
    obtain ⟨l', hl', hnamed'⟩ := hf a t
    cases hnamed with
    | unfailing hnone => exact ⟨l ++ l', hl.trans hl', hnamed'.prepend hnone⟩

theorem composes_namesFailures :
    Composes fun _ (x : SessionM (Recorded σ) _) ↦ NamesFailures x where
  lift hr _ := ⟨[], .of_same rfl rfl, .unfailing rfl hr⟩
  get s := ⟨[], .of_same rfl rfl, .unfailing rfl (.ok s)⟩
  bind := NamesFailures.bind

theorem fault_of_onStatement {sql : String} {binds : List Value} {x : DatabaseM σ α} {f : Fault}
    {r r' : Session σ}
    (h : (onStatement sql binds x).run r = (.error (.ofStatement sql binds f), r')) :
    (x.run r.database).1 = .error f := by
  rw [run_onStatement] at h
  rcases hx : x.run r.database with ⟨e | a, d⟩
  · rw [hx] at h
    injection h with h
    injection h with h
    injection h with _ _ _ h
    rw [Option.some.inj h]
  · rw [hx] at h
    cases h

variable [Database σ] (hσ : ReportsIssues σ)
include hσ

theorem namesFailures_run (sql : String) (binds : List Value) :
    NamesFailures (Session.run sql binds : SessionM (Recorded σ) Unit) := by
  intro s
  have hlast : ((Session.run sql binds).run s).2.lastSql = some sql := rfl
  rcases run_run s with ⟨t, hr, hl⟩ | ⟨f, t, hr, hl⟩
  · rw [hr] at hlast ⊢
    exact ⟨_, ⟨hl, hlast⟩, .unfailing rfl (.ok ())⟩
  · have hexecute : (onStatement sql binds (Database.execute sql binds)).run
        { s with lastSql := some sql } = (.error (.ofStatement sql binds f), t) := hr
    obtain ⟨issue, cause, rfl⟩ :=
      (hσ.execute sql binds).record _ _ _ (fault_of_onStatement hexecute)
    rw [hr] at hlast ⊢
    exact ⟨_, ⟨hl, hlast⟩, .failed rfl rfl⟩

theorem namesFailures_fetch {fetch : DatabaseCall} {x : DatabaseM σ α} (hx : FailsAsDatabase x)
    (hfetch : fetch = .fetchOne ∨ fetch = .fetchAll) (sql : String) (binds : List Value) :
    NamesFailures (do Session.run sql binds; onStatement sql binds (Recorded.record fetch x)) := by
  intro s
  have hlast : ((Session.run sql binds).run s).2.lastSql = some sql := rfl
  have hlog (f : Option Fault) :
      Log.issued [(.execute sql binds, none), (fetch, f)] = [(sql, binds)] ∧
        Log.failures [(.execute sql binds, none), (fetch, f)] = f.toList := by
    rcases hfetch with rfl | rfl
    · cases f <;> exact ⟨rfl, rfl⟩
    · cases f <;> exact ⟨rfl, rfl⟩
  rw [run_bind]
  rcases run_run s with ⟨t, hr, hl⟩ | ⟨f, t, hr, hl⟩
  · rw [hr] at hlast ⊢
    have hlast' : ((onStatement sql binds (Recorded.record fetch x)).run t).2.lastSql = some sql :=
      hlast
    dsimp only
    rcases run_onStatement_record sql binds fetch x t with ⟨a, u, hr', hl'⟩ | ⟨f, u, hr', hl'⟩
    · rw [hr'] at hlast' ⊢
      refine ⟨_, ⟨hl.trans hl', ?_⟩, .unfailing (hlog none).2 (.ok a)⟩
      rw [(hlog none).1]
      exact hlast'
    · obtain ⟨issue, cause, rfl⟩ := hx.record fetch _ _ (fault_of_onStatement hr')
      rw [hr'] at hlast' ⊢
      refine ⟨_, ⟨hl.trans hl', ?_⟩, .failed (hlog _).2 ?_⟩
      · rw [(hlog _).1]
        exact hlast'
      · exact congrArg List.getLast? (hlog _).1
  · have hrun := namesFailures_run hσ sql binds s
    rw [hr] at hrun ⊢
    obtain ⟨l, hl, hnamed⟩ := hrun
    exact ⟨l, hl, hnamed.error⟩

theorem composesReads_namesFailures :
    ComposesReads fun _ (x : SessionM (Recorded σ) _) ↦ NamesFailures x where
  toComposes := composes_namesFailures
  fetchOne _ := namesFailures_fetch hσ hσ.fetchOne (.inl rfl) _ _
  fetchAll _ := namesFailures_fetch hσ hσ.fetchAll (.inr rfl) _ _

theorem composesWrites_namesFailures :
    ComposesWrites fun _ (x : SessionM (Recorded σ) _) ↦ NamesFailures x where
  toComposes := composes_namesFailures
  execute st := namesFailures_run hσ st.sql st.binds

theorem namesFailures_fetchInsertId :
    NamesFailures (fetchInsertId : SessionM (Recorded σ) Value) := by
  rw [fetchInsertId]
  refine composes_namesFailures.get.bind fun s ↦ ?_
  rw [← bind_assoc]
  refine NamesFailures.bind ?_ fun row ↦ ?_
  · exact namesFailures_fetch hσ hσ.fetchOne (.inl rfl) s.config.lastInsertIdSql []
  · split
    · exact composes_namesFailures.throw rfl
    · exact composes_namesFailures.throw rfl
    · exact fun s ↦ ⟨[], .of_same rfl rfl, .unfailing rfl (.ok _)⟩

/-- A transaction that could not be committed tells why, and that it could not be undone is not
told. Neither is a failure of a statement. -/
theorem NamesFailures.transaction {x : SessionM (Recorded σ) α} (h : NamesFailures x) :
    NamesFailures (Session.transaction x) := by
  intro s
  obtain ⟨l, hl, hnamed⟩ := h s
  have hundone (t : Session (Recorded σ)) : ∃ r, Leads [(.rollback, r)] t (rolledBack t) := by
    obtain ⟨r, hr⟩ := rolledBack_logged t
    exact ⟨r, hr, rfl⟩
  rw [run_transaction]
  rcases hrun : x.run s with ⟨e | a, t⟩
  · rw [hrun] at hl hnamed
    obtain ⟨r, hr⟩ := hundone t
    exact ⟨_, hl.trans hr, hnamed.append rfl rfl⟩
  · rw [hrun] at hl hnamed
    have hlast : ((onDatabase (Database.commit : DatabaseM (Recorded σ) Unit)).run t).2.lastSql =
        t.lastSql := rfl
    dsimp only
    rcases run_onDatabase_record .commit (Database.commit : DatabaseM σ Unit) t with
      ⟨⟨⟩, u, hr, hu⟩ | ⟨f, u, hr, hu⟩
    · have hcommit : (onDatabase Database.commit).run t = (.ok (), u) := hr
      rw [hcommit] at hlast ⊢
      have hleads : Leads [(.commit, none)] t u := ⟨hu, hlast⟩
      exact ⟨_, hl.trans hleads, hnamed.append rfl rfl⟩
    · have hcommit : (onDatabase Database.commit).run t = (.error f, u) := hr
      obtain ⟨issue, cause, rfl⟩ :=
        hσ.commit.record .commit t.database f (congrArg Prod.fst hcommit)
      rw [hcommit] at hlast ⊢
      have hleads : Leads [(.commit, some (.database issue cause))] t u := ⟨hu, hlast⟩
      obtain ⟨r, hundo⟩ := hundone u
      refine ⟨_, (hl.trans hleads).trans hundo, .unfailing ?_ (.error rfl)⟩
      cases hnamed with
      | unfailing hnone =>
        rw [failures_append, failures_append, hnone]
        rfl

theorem namesFailures_write (w : Write) :
    NamesFailures (w.run : SessionM (Recorded σ) (Option Value)) := by
  rw [w.run_eq]
  refine ((composesReads_namesFailures hσ).plan w).bind fun work ↦ ?_
  cases work with
  | none => exact composes_namesFailures.pure none
  | some work =>
    have hwork := (composesWrites_namesFailures hσ).work (namesFailures_fetchInsertId hσ) work
    exact NamesFailures.transaction hσ hwork

theorem namesFailures_call (c : Call) :
    NamesFailures (c.run : SessionM (Recorded σ) Reply) := by
  have hcomposes : Composes fun _ (x : SessionM (Recorded σ) _) ↦ NamesFailures x :=
    composes_namesFailures
  cases c with
  | execute st =>
    exact (namesFailures_run hσ st.sql st.binds).bind fun _ ↦ hcomposes.pure Reply.done
  | fetchOne st =>
    exact hcomposes.map (namesFailures_fetch hσ hσ.fetchOne (.inl rfl) st.sql st.binds) Reply.row
  | fetchAll st =>
    exact hcomposes.map (namesFailures_fetch hσ hσ.fetchAll (.inr rfl) st.sql st.binds) Reply.rows
  | write w => exact hcomposes.map (namesFailures_write hσ w) Reply.id

theorem namesFailures_operation (o : Operation) :
    NamesFailures (o.run : SessionM (Recorded σ) Unit) := by
  have hreads : ComposesReads fun _ (x : SessionM (Recorded σ) _) ↦ NamesFailures x :=
    composesReads_namesFailures hσ
  have hdiscard {α : Type} {x : SessionM (Recorded σ) α} (hx : NamesFailures x) :
      NamesFailures (discard x) :=
    hreads.map hx (Function.const α ())
  cases o with
  | register m => exact hdiscard fun s ↦ ⟨[], .of_same rfl rfl, .unfailing rfl (.ok _)⟩
  | observe m => exact fun s ↦ ⟨[], .of_same rfl rfl, .unfailing rfl (.ok _)⟩
  | findById name id o => exact hdiscard (hreads.findById name id o)
  | findById? name id o => exact hdiscard (hreads.findById? name id o)
  | find? name o => exact hdiscard (hreads.find? name o)
  | findAll name o => exact hdiscard (hreads.findAll name o)
  | list name o => exact hdiscard (hreads.list name o)
  | search name text o => exact hdiscard (hreads.list name { o with search := some text })
  | count name o => exact hdiscard (hreads.count name o)
  | countRelated e relation => exact hdiscard (hreads.countRelated e relation)
  | lookup name wanted field v => exact hdiscard (hreads.lookup name wanted field v)
  | call c => exact hdiscard (namesFailures_call hσ c)

namespace Operation

/-- A statement that fails is the last one that is executed, and its failure is what is told: with
its text, which is then known as that of the last statement, with the values that were bound, and
with the fault of the database. Nothing else is told to be the failure of a statement. -/
theorem failed_statement_told (o : Operation) (s : Session (Recorded σ)) :
    ∃ l : Log, (o.run.run s).2.database.history = s.database.history ++ l ∧
      (∀ sql binds message cause,
        (o.run.run s).1 = .error (.statement sql binds message cause) →
          (o.run.run s).2.lastSql = some sql ∧ l.issued.getLast? = some (sql, binds) ∧
          ∃ issue source, l.failures = [.database issue source] ∧
            cause = some (.database issue source) ∧
            message = (Fault.database issue source).message) ∧
      ∀ f ∈ l.failures, ∃ sql binds, (o.run.run s).1 = .error (.ofStatement sql binds f) ∧
        (o.run.run s).2.lastSql = some sql ∧ l.issued.getLast? = some (sql, binds) := by
  obtain ⟨l, hl, hnamed⟩ := namesFailures_operation hσ o s
  refine ⟨l, hl.history, ?_⟩
  have hsql := hl.lastSql
  generalize (o.run.run s).1 = r at hnamed
  cases hnamed with
  | unfailing hnone hown =>
    refine ⟨fun sql binds message cause hr ↦ ?_, fun f hf ↦ ?_⟩
    · cases hown _ hr
    · rw [hnone] at hf
      cases hf
  | failed hfail hlast =>
    rw [hlast] at hsql
    refine ⟨fun sql binds message cause hr ↦ ?_, fun f hf ↦ ?_⟩
    · cases hr
      exact ⟨hsql, hlast, _, _, hfail, rfl, rfl⟩
    · rw [hfail] at hf
      obtain rfl := List.mem_singleton.mp hf
      exact ⟨_, _, rfl, hsql, hlast⟩

omit hσ

/-- The film is read, but not its language: what is told is the query for the language. -/
theorem failed_statement_told_follow_up :
    let film : Model := { name := "Film", table := some "film",
                          fields := [{ name := "film_id", kind := .integer, primaryKey := true },
                            { name := "language_id", kind := .integer }],
                          relations := [
                            .manyToOne "language" "Language" "language_id" "language_id"] }
    let language : Model := { name := "Language", table := some "language",
                              fields := [{ name := "language_id", kind := .integer,
                                           primaryKey := true }] }
    let script : Script := { results := [[[.bigInt 7, .bigInt 1]]],
                             rules := [⟨.fetchOne, .nth 2, "locked"⟩] }
    let s : Session (Recorded Script) := { database := ⟨script, []⟩,
                                           registry := ⟨[film, language]⟩ }
    let o : Operation := .findById "Film" (.bigInt 7) {}
    let sql := "SELECT language.language_id\n    FROM language\n    WHERE language.language_id = ?"
    ReportsIssues Script ∧ ∃ binds f, (o.run.run s).1 = .error (.ofStatement sql binds f) ∧
      (o.run.run s).2.lastSql = some sql := by
  intro film language script s o sql
  obtain ⟨l, hl, -, htold⟩ := o.failed_statement_told reportsIssues_script s
  have hfailures : (Log.failures (o.run.run s).2.database.history).length = 1 := by
    decide +kernel
  have hlast : (o.run.run s).2.lastSql = some sql := by decide +kernel
  rw [hl, List.nil_append] at hfailures
  obtain ⟨f, hf⟩ := List.length_eq_one_iff.mp hfailures
  obtain ⟨sql', binds, hr, hsql, -⟩ := htold f (by rw [hf]; exact List.mem_singleton_self f)
  obtain rfl : sql = sql' := Option.some.inj (hlast.symm.trans hsql)
  exact ⟨reportsIssues_script, binds, f, hr, hsql⟩

end Operation

end RelMapper
