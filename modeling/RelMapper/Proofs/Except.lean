import Mathlib.Data.List.Forall2
import RelMapper.Fault
namespace RelMapper

variable {α β : Type}

theorem bind_eq_ok {x : Except Fault α} {f : α → Except Fault β} {b : β} :
    (x >>= f) = .ok b ↔ ∃ a, x = .ok a ∧ f a = .ok b := by
  cases x with
  | error e => exact ⟨nofun, fun ⟨_, h, _⟩ ↦ nomatch h⟩
  | ok a => exact ⟨fun h ↦ ⟨a, rfl, h⟩, fun ⟨_, ha, h⟩ ↦ Except.ok.inj ha ▸ h⟩

theorem exists_eq_ok {x : Except Fault α} {p : α → Bool} (h : x.toOption.any p = true) :
    ∃ a, x = .ok a ∧ p a = true := by
  cases x with
  | error e => cases h
  | ok a => exact ⟨a, rfl, h⟩

theorem toOption_eq_some {x : Except Fault α} {a : α} : x.toOption = some a ↔ x = .ok a := by
  cases x with
  | error e => exact ⟨nofun, nofun⟩
  | ok b => exact ⟨fun h ↦ congrArg _ (Option.some.inj h), fun h ↦ congrArg _ (Except.ok.inj h)⟩

theorem pure_eq_ok {a b : α} : (pure a : Except Fault α) = .ok b ↔ a = b :=
  ⟨Except.ok.inj, congrArg Except.ok⟩

theorem map_eq_ok {x : Except Fault α} {f : α → β} {b : β} :
    (f <$> x) = .ok b ↔ ∃ a, x = .ok a ∧ f a = b := by
  cases x with
  | error e => exact ⟨nofun, fun ⟨_, h, _⟩ ↦ nomatch h⟩
  | ok a => exact ⟨fun h ↦ ⟨a, rfl, Except.ok.inj h⟩,
      fun ⟨_, ha, h⟩ ↦ Except.ok.inj ha ▸ congrArg Except.ok h⟩

theorem exists_of_forall₂ {R : α → β → Prop} {as : List α} {bs : List β}
    (h : List.Forall₂ R as bs) {b : β} (hb : b ∈ bs) : ∃ a ∈ as, R a b := by
  obtain ⟨i, hi, rfl⟩ := List.getElem_of_mem hb
  have hi' : i < as.length := h.length_eq ▸ hi
  exact ⟨as[i], List.getElem_mem hi', h.get hi' hi⟩

theorem foldlM_keeps {P : α → Prop} {f : α → β → Except Fault α} {bs : List β} {a c : α}
    (hstep : ∀ {a b a'}, b ∈ bs → P a → f a b = .ok a' → P a') (ha : P a)
    (h : bs.foldlM f a = .ok c) : P c := by
  induction bs generalizing a with
  | nil =>
    obtain rfl := pure_eq_ok.mp h
    exact ha
  | cons b bs ih =>
    rw [List.foldlM_cons] at h
    obtain ⟨a', hb, h⟩ := bind_eq_ok.mp h
    have hrest {a b' a'} (hb' : b' ∈ bs) : P a → f a b' = .ok a' → P a' :=
      hstep (List.mem_cons_of_mem b hb')
    exact ih hrest (hstep List.mem_cons_self ha hb) h

theorem mapM_eq_ok {f : α → Except Fault β} {as : List α} {bs : List β} :
    as.mapM f = .ok bs ↔ List.Forall₂ (fun a b ↦ f a = .ok b) as bs := by
  induction as generalizing bs with
  | nil =>
    rw [List.mapM_nil, pure_eq_ok]
    exact ⟨fun h ↦ h ▸ .nil, fun h ↦ (List.forall₂_nil_left_iff.mp h).symm⟩
  | cons a as ih =>
    rw [List.mapM_cons]
    constructor
    · intro h
      obtain ⟨b, ha, h⟩ := bind_eq_ok.mp h
      obtain ⟨bs', has, h⟩ := bind_eq_ok.mp h
      obtain rfl := pure_eq_ok.mp h
      exact .cons ha (ih.mp has)
    · intro h
      obtain ⟨b, bs', ha, has, rfl⟩ := List.forall₂_cons_left_iff.mp h
      exact bind_eq_ok.mpr ⟨b, ha, bind_eq_ok.mpr ⟨bs', ih.mpr has, rfl⟩⟩

theorem exists_of_mapM {f : α → Except Fault β} {as : List α} {bs : List β}
    (h : as.mapM f = .ok bs) {a : α} (ha : a ∈ as) : ∃ b, f a = .ok b := by
  have hall := mapM_eq_ok.mp h
  clear h
  induction hall with
  | nil => cases ha
  | cons hb _ ih =>
    rcases List.mem_cons.mp ha with rfl | ha
    · exact ⟨_, hb⟩
    · exact ih ha

theorem exists_mapM {f : α → Except Fault β} {as : List α} (h : ∀ a ∈ as, ∃ b, f a = .ok b) :
    ∃ bs, as.mapM f = .ok bs := by
  induction as with
  | nil => exact ⟨[], rfl⟩
  | cons a as ih =>
    obtain ⟨⟨b, hb⟩, has⟩ := List.forall_mem_cons.mp h
    obtain ⟨bs, hbs⟩ := ih has
    exact ⟨b :: bs, mapM_eq_ok.mpr (.cons hb (mapM_eq_ok.mp hbs))⟩

theorem mem_iff_of_mapM {f : α → Except Fault β} {as : List α} {bs : List β}
    (h : as.mapM f = .ok bs) {b : β} : b ∈ bs ↔ ∃ a ∈ as, f a = .ok b := by
  have hall := mapM_eq_ok.mp h
  clear h
  induction hall with
  | nil => simp
  | @cons a c as bs ha _ ih =>
    refine List.mem_cons.trans ((or_congr_right ih).trans ?_)
    rw [List.exists_mem_cons_iff, ha]
    exact or_congr_left ⟨fun h ↦ h ▸ rfl, fun h ↦ (Except.ok.inj h).symm⟩

theorem flatMap_of_mapM {γ : Type} {f : α → Except Fault β} {g : α → List γ} {h : β → List γ}
    (hf : ∀ a b, f a = .ok b → h b = g a) {as : List α} {bs : List β}
    (hbs : as.mapM f = .ok bs) : bs.flatMap h = as.flatMap g := by
  have hall := mapM_eq_ok.mp hbs
  clear hbs
  induction hall with
  | nil => rfl
  | cons hb _ ih => rw [List.flatMap_cons, List.flatMap_cons, ih, hf _ _ hb]

/-- Both fail alike, or give results that `f` does not tell apart. -/
def AgreeOn {γ : Type} (f : α → γ) (x y : Except Fault α) : Prop :=
  f <$> x = f <$> y

namespace AgreeOn

variable {γ δ : Type} {f : α → γ} {g : β → δ} {x y : Except Fault α}

theorem pure {a b : α} (h : f a = f b) : AgreeOn f (.ok a) (.ok b) :=
  congrArg Except.ok h

theorem bind {k l : α → Except Fault β} (h : AgreeOn f x y)
    (hk : ∀ a b, f a = f b → AgreeOn g (k a) (l b)) : AgreeOn g (x >>= k) (y >>= l) := by
  cases x with
  | error e =>
    cases y with
    | error e' =>
      cases h
      rfl
    | ok b => cases h
  | ok a =>
    cases y with
    | error e' => cases h
    | ok b => exact hk a b (Except.ok.inj h)

theorem bind_self (x : Except Fault α) {k l : α → Except Fault β}
    (hk : ∀ a, AgreeOn g (k a) (l a)) : AgreeOn g (x >>= k) (x >>= l) :=
  bind (f := id) rfl fun a b (h : a = b) ↦ h ▸ hk a

theorem map {g : β → δ} {k : α → β} (h : AgreeOn f x y)
    (hk : ∀ a b, f a = f b → g (k a) = g (k b)) : AgreeOn g (k <$> x) (k <$> y) := by
  rw [← bind_pure_comp, ← bind_pure_comp]
  exact h.bind fun a b hab ↦ pure (hk a b hab)

theorem of_map_eq {σ : α → α} {g : β → β} {k : α → Except Fault β}
    (hk : ∀ a, k (σ a) = g <$> k a) {a b : α} (h : σ a = σ b) : AgreeOn g (k a) (k b) := by
  rw [AgreeOn, ← hk, ← hk, h]

theorem mapM {σ : α → δ} {k : α → Except Fault β} {g : β → γ}
    (hk : ∀ a b, σ a = σ b → AgreeOn g (k a) (k b)) {as bs : List α}
    (h : as.map σ = bs.map σ) : AgreeOn (List.map g) (as.mapM k) (bs.mapM k) := by
  induction as generalizing bs with
  | nil =>
    obtain rfl := List.map_eq_nil_iff.mp h.symm
    rfl
  | cons a as ih =>
    obtain ⟨b, bs', rfl, hab, hrest⟩ := List.map_eq_cons_iff.mp h.symm
    rw [List.mapM_cons, List.mapM_cons]
    refine (hk a b hab.symm).bind fun c d hcd ↦ (ih hrest.symm).bind fun cs ds hcds ↦ ?_
    refine pure ?_
    rw [List.map_cons, List.map_cons, hcd, hcds]

end AgreeOn

end RelMapper
