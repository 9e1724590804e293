import Mathlib.Data.List.Induction
import Mathlib.Data.List.Nodup
import Mathlib.Data.String.Basic
import RelMapper.Proofs.Session.Runs
import RelMapper.Proofs.Text.ByteOrder
namespace RelMapper

/-- How a model comes to a registry: by a call that tells whether it was registered, or in passing
when it turns up. -/
inductive Arrival
  | registered (m : Model)
  | observed (m : Model)

def Arrival.model : Arrival → Model
  | registered m => m
  | observed m => m

def firstNamed (name : String) (ms : List Model) : Option Model :=
  ms.find? fun m ↦ !m.isAbstract && m.name == name

theorem firstNamed_append (name : String) (ms ns : List Model) :
    firstNamed name (ms ++ ns) = (firstNamed name ms).or (firstNamed name ns) :=
  List.find?_append

def Arrival.answer (before : List Model) : Arrival → Option Bool
  | registered m => some (!m.isAbstract && (firstNamed m.name before).isNone)
  | observed _ => none

namespace Registry

variable {r : Registry} {m n : Model} {ms : List Model} {name : String}

def enter (r : Registry) : Arrival → Registry
  | .registered m => (r.register m).2
  | .observed m => r.observe m

def after (arrivals : List Arrival) : Registry :=
  arrivals.foldl enter {}

theorem after_append (arrivals later : List Arrival) :
    after (arrivals ++ later) = later.foldl enter (after arrivals) :=
  List.foldl_append

theorem exists_insertByName (m : Model) (ms : List Model) :
    ∃ smaller greater, ms = smaller ++ greater ∧ insertByName m ms = smaller ++ m :: greater := by
  induction ms with
  | nil => exact ⟨[], [], rfl, rfl⟩
  | cons n ms ih =>
    rw [insertByName]
    split
    · exact ⟨[], n :: ms, rfl, rfl⟩
    · obtain ⟨smaller, greater, rfl, h⟩ := ih
      exact ⟨n :: smaller, greater, rfl, congrArg (n :: ·) h⟩

theorem mem_insertByName : n ∈ insertByName m ms ↔ n = m ∨ n ∈ ms := by
  obtain ⟨smaller, greater, rfl, h⟩ := exists_insertByName m ms
  simp [h, or_left_comm]

theorem find?_insertByName (hnew : ms.find? (·.name == m.name) = none) (name : String) :
    (insertByName m ms).find? (·.name == name) =
      (ms.find? (·.name == name)).or ([m].find? (·.name == name)) := by
  obtain ⟨smaller, greater, rfl, h⟩ := exists_insertByName m ms
  have happend : smaller ++ m :: greater = smaller ++ [m] ++ greater := by simp
  rw [h, happend, List.find?_append, List.find?_append, List.find?_append]
  by_cases hname : m.name = name
  · subst hname
    -- Neither half knows the name, so it does not matter where the model is put between them.
    obtain ⟨hsmaller, hgreater⟩ : smaller.find? (·.name == m.name) = none ∧
        greater.find? (·.name == m.name) = none := by
      simpa [List.find?_append] using hnew
    simp [hsmaller, hgreater]
  · simp [hname]

theorem find?_register (r : Registry) (m : Model) (name : String) :
    (r.register m).2.find? name = (r.find? name).or (firstNamed name [m]) := by
  rw [register]
  cases hm : m.isAbstract with
  | true => simp [firstNamed, hm]
  | false =>
    have hfirst : firstNamed name [m] = [m].find? (·.name == name) := by
      simp [firstNamed, hm]
    rw [hfirst]
    cases hr : r.contains m.name with
    | true =>
      by_cases hname : m.name = name
      · subst hname
        obtain ⟨n, hn⟩ := Option.isSome_iff_exists.mp hr
        simp [hn]
      · simp [hname]
    | false =>
      have hnew : r.find? m.name = none := by simpa [contains] using hr
      exact find?_insertByName hnew name

theorem find?_enter (r : Registry) (a : Arrival) (name : String) :
    (r.enter a).find? name = (r.find? name).or (firstNamed name [a.model]) := by
  cases a with
  | registered m => exact r.find?_register m name
  | observed m => exact r.find?_register m name

/-- What a registry knows stays, and to it comes what is first among the models that arrive. -/
theorem find?_foldl_enter (r : Registry) (arrivals : List Arrival) (name : String) :
    (arrivals.foldl enter r).find? name =
      (r.find? name).or (firstNamed name (arrivals.map Arrival.model)) := by
  induction arrivals generalizing r with
  | nil => simp [firstNamed]
  | cons a arrivals ih =>
    rw [List.foldl_cons, ih, find?_enter, Option.or_assoc, ← firstNamed_append]
    rfl

theorem find?_after (arrivals : List Arrival) (name : String) :
    (after arrivals).find? name = firstNamed name (arrivals.map Arrival.model) :=
  find?_foldl_enter {} arrivals name

section Order

def IsSorted (r : Registry) : Prop :=
  r.models.Pairwise fun m n ↦ m.name < n.name

theorem isSorted_insertByName (hsorted : ms.Pairwise fun m n ↦ m.name < n.name)
    (hnew : ∀ n ∈ ms, n.name ≠ m.name) :
    (insertByName m ms).Pairwise fun m n ↦ m.name < n.name := by
  induction ms with
  | nil => exact List.pairwise_singleton _ _
  | cons n ms ih =>
    obtain ⟨hn, hms⟩ := List.pairwise_cons.mp hsorted
    rw [insertByName]
    split
    · next hlt =>
      refine List.pairwise_cons.mpr ⟨fun k hk ↦ ?_, hsorted⟩
      rcases List.mem_cons.mp hk with rfl | hk
      · exact hlt
      · exact lt_trans hlt (hn k hk)
    · next hle =>
      have hlt : n.name < m.name := lt_of_le_of_ne (not_lt.mp hle) (hnew n List.mem_cons_self)
      refine List.pairwise_cons.mpr ⟨fun k hk ↦ ?_, ih hms fun k hk ↦ hnew k (.tail _ hk)⟩
      rcases mem_insertByName.mp hk with rfl | hk
      · exact hlt
      · exact hn k hk

theorem IsSorted.register (h : r.IsSorted) (m : Model) : (r.register m).2.IsSorted := by
  rw [Registry.register]
  split
  · exact h
  · next hnew =>
    refine isSorted_insertByName h fun n hn hname ↦ hnew ?_
    have hknown : r.contains m.name = true :=
      List.find?_isSome.mpr ⟨n, hn, beq_iff_eq.mpr hname⟩
    rw [hknown, Bool.or_true]

theorem IsSorted.foldl_enter (h : r.IsSorted) (arrivals : List Arrival) :
    (arrivals.foldl enter r).IsSorted := by
  induction arrivals generalizing r with
  | nil => exact h
  | cons a arrivals ih =>
    cases a with
    | registered m => exact ih (h.register m)
    | observed m => exact ih (h.register m)

theorem isSorted_after (arrivals : List Arrival) : (after arrivals).IsSorted :=
  IsSorted.foldl_enter List.Pairwise.nil arrivals

theorem IsSorted.nodup_names (h : r.IsSorted) : r.names.Nodup :=
  List.pairwise_map.mpr (h.imp fun hlt ↦ ne_of_lt hlt)

theorem IsSorted.find?_eq_some_iff (h : r.IsSorted) : r.find? m.name = some m ↔ m ∈ r.models := by
  constructor
  · exact List.mem_of_find?_eq_some
  · intro hm
    have hknown : (r.find? m.name).isSome = true :=
      List.find?_isSome.mpr ⟨m, hm, beq_self_eq_true m.name⟩
    obtain ⟨n, hn⟩ := Option.isSome_iff_exists.mp hknown
    have hname : n.name = m.name := by simpa using List.find?_some hn
    rw [hn, List.inj_on_of_nodup_map h.nodup_names (List.mem_of_find?_eq_some hn) hm hname]

end Order

theorem get_eq (r : Registry) (name : String) :
    r.get name = (r.find? name).elim (.error (.modelNotFound name r.names)) .ok := by
  rw [get.eq_def]
  cases r.find? name <;> rfl

theorem get_eq_ok : r.get name = .ok m ↔ r.find? name = some m := by
  rw [get_eq]
  cases r.find? name <;> simp

theorem mem_names_iff : name ∈ r.names ↔ ∃ m, r.get name = .ok m := by
  have hknown : (r.find? name).isSome = true ↔ name ∈ r.names := by
    simp [find?, names, List.find?_isSome]
  rw [← hknown, Option.isSome_iff_exists]
  exact exists_congr fun m ↦ get_eq_ok.symm

theorem register_fst (r : Registry) (m : Model) :
    (r.register m).1 = (!m.isAbstract && (r.find? m.name).isNone) := by
  rw [register, contains]
  cases m.isAbstract <;> cases r.find? m.name <;> rfl

end Registry

namespace Session

variable {σ : Type}

def enter : Arrival → SessionM σ (Option Bool)
  | .registered m => some <$> register m
  | .observed m => do
    observe m
    return none

theorem run_enter (before : List Arrival) (a : Arrival) {s : Session σ}
    (h : s.registry = .after before) : (enter a).run s =
      (.ok (a.answer (before.map Arrival.model)),
        { s with registry := .after (before ++ [a]) }) := by
  have hafter : s.registry.enter a = .after (before ++ [a]) := by
    rw [h, Registry.after_append]
    rfl
  rw [← hafter]
  cases a with
  | registered m =>
    have hanswer : (s.registry.register m).1 =
        (!m.isAbstract && (firstNamed m.name (before.map Arrival.model)).isNone) := by
      rw [Registry.register_fst, h, Registry.find?_after]
    rw [Arrival.answer, ← hanswer]
    rfl
  | observed m => rfl

theorem run_entering (arrivals : List Arrival) {s : Session σ} (h : s.registry = {}) :
    (arrivals.mapM enter).run s =
      (.ok (arrivals.mapIdx fun i a ↦ a.answer ((arrivals.take i).map Arrival.model)),
        { s with registry := .after arrivals }) := by
  -- An answer depends on what came before it, so the last arrival is taken off.
  induction arrivals using List.reverseRecOn with
  | nil =>
    obtain ⟨database, config, registry, lastSql, lastInsertId⟩ := s
    obtain rfl : registry = {} := h
    rfl
  | append_singleton arrivals a ih =>
    have hearlier : (arrivals.mapIdx fun i b ↦
        b.answer (((arrivals ++ [a]).take i).map Arrival.model)) =
        arrivals.mapIdx fun i b ↦ b.answer ((arrivals.take i).map Arrival.model) :=
      List.mapIdx_eq_mapIdx_iff.mpr fun i hi ↦ by
        rw [List.take_append_of_le_length (Nat.le_of_lt hi)]
    have hlast : (arrivals ++ [a]).take arrivals.length = arrivals := List.take_left
    have hrun := run_enter arrivals a (s := { s with registry := .after arrivals }) rfl
    rw [List.mapM_append, run_bind_of_ok ih, List.mapM_cons, List.mapM_nil, List.mapIdx_concat,
      hearlier, hlast, bind_assoc, run_bind_of_ok hrun]
    rfl

end Session

/-- Of the models that arrive, the first concrete one of each name is registered, is told to be, and
stays what the name leads to. Names come in the order of their bytes, and models in the order of
their names. -/
theorem first_concrete_kept (arrivals : List Arrival) :
    let r := Registry.after arrivals
    (∀ name, r.get name = (firstNamed name (arrivals.map Arrival.model)).elim
      (.error (.modelNotFound name r.names)) .ok) ∧
    (∀ name, name ∈ r.names ↔ ∃ m, r.get name = .ok m) ∧
    (∀ m, (r.register m).1 = true ↔
      m.isAbstract = false ∧ firstNamed m.name (arrivals.map Arrival.model) = none) ∧
    (∀ later name m, r.get name = .ok m →
      (Registry.after (arrivals ++ later)).get name = .ok m) ∧
    (r.names.Pairwise fun a b ↦ Text.bytes a < Text.bytes b) ∧
    ((∀ m, m ∈ r.models ↔ r.get m.name = .ok m) ∧ r.models.map Model.name = r.names ∧
      r.size = r.names.length) ∧
    ∀ {σ : Type} (s : Session σ), s.registry = {} →
      (arrivals.mapM Session.enter).run s =
        (.ok (arrivals.mapIdx fun i a ↦ a.answer ((arrivals.take i).map Arrival.model)),
          { s with registry := r }) := by
  intro r
  have hsorted : r.IsSorted := Registry.isSorted_after arrivals
  have hfind := Registry.find?_after arrivals
  refine ⟨fun name ↦ ?_, fun name ↦ Registry.mem_names_iff, fun m ↦ ?_, fun later name m h ↦ ?_, ?_,
    ⟨fun m ↦ ?_, rfl, (List.length_map _).symm⟩, fun s h ↦ Session.run_entering arrivals h⟩
  · rw [Registry.get_eq, hfind]
  · rw [Registry.register_fst, hfind]
    simp
  · rw [Registry.get_eq_ok] at h ⊢
    rw [Registry.after_append, Registry.find?_foldl_enter, h, Option.some_or]
  · exact List.pairwise_map.mpr (hsorted.imp fun hlt ↦ Text.bytes_lt hlt)
  · rw [Registry.get_eq_ok, hsorted.find?_eq_some_iff]

/-- An abstract model takes no name, and a second concrete one changes nothing. -/
theorem first_concrete_kept_film :
    let draft : Model := { name := "Film" }
    let film : Model := { name := "Film", table := some "film" }
    let movie : Model := { name := "Film", table := some "movie" }
    let actor : Model := { name := "Actor", table := some "actor" }
    let arrivals : List Arrival :=
      [.registered draft, .observed film, .registered movie, .registered actor]
    let r := Registry.after arrivals
    let session : Session Unit := { database := () }
    r.get "Film" = .ok film ∧ r.names = ["Actor", "Film"] ∧
      (Registry.after (arrivals ++ [.observed movie])).get "Film" = .ok film ∧
      (arrivals.mapM Session.enter).run session =
        (.ok [some false, none, some false, some true], { session with registry := r }) := by
  intro draft film movie actor arrivals r session
  obtain ⟨hget, -, -, hkept, -, -, hrun⟩ := first_concrete_kept arrivals
  have hfilm : r.get "Film" = .ok film := hget "Film"
  exact ⟨hfilm, by decide +kernel, hkept [.observed movie] "Film" film hfilm, hrun session rfl⟩

end RelMapper
