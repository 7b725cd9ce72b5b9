import Mathlib
import GraphicsPipeline.Stepwise

/-!
# Rules for steps

What holds of single steps holds of sequences of them: what stays of the state, which faults may
come up (`Step.Maintains`), how one way to work follows another (`Step.Follows`), what is done at
each of many places (`Step.SplitsInto`), and what is seen of the state by someone who does not see
all of it (`Step.ProjectsTo`).
-/

namespace GraphicsPipeline

/-- So many words from a first one on. -/
def wordsFrom (start : UInt32) (count : Nat) : List UInt32 :=
  (List.range count).map fun k => start + UInt32.ofNat k

lemma wordsFrom_succ {start : UInt32} {count : Nat} :
    wordsFrom start (count + 1) = start :: wordsFrom (start + 1) count := by
  simp only [wordsFrom, List.range_succ_eq_map, List.map_cons, List.map_map]
  congr 1
  · simp
  · apply List.map_congr_left
    intro k _
    simp only [Function.comp_apply, Nat.succ_eq_add_one, UInt32.ofNat_add]
    rw [UInt32.add_comm (UInt32.ofNat k), UInt32.add_assoc]
    rfl

/-- Words are counted up to a bound, as long as it is one itself. -/
lemma mem_wordsFrom {start v : UInt32} {count : Nat} (h : start.toNat + count ≤ UInt32.size) :
    v ∈ wordsFrom start count ↔ start.toNat ≤ v.toNat ∧ v.toNat < start.toNat + count := by
  simp only [wordsFrom, List.mem_map, List.mem_range, UInt32.size] at h ⊢
  constructor
  · rintro ⟨k, hk, rfl⟩
    have hsum : (start + UInt32.ofNat k).toNat = start.toNat + k := by
      rw [UInt32.toNat_add, UInt32.toNat_ofNat']
      omega
    omega
  · rintro ⟨hle, hlt⟩
    refine ⟨v.toNat - start.toNat, by omega, ?_⟩
    rw [← UInt32.toNat_inj, UInt32.toNat_add, UInt32.toNat_ofNat']
    omega

/-- Words are counted upwards. -/
lemma pairwise_wordsFrom {start : UInt32} {count : Nat}
    (h : start.toNat + count ≤ UInt32.size) : (wordsFrom start count).Pairwise (· < ·) := by
  induction count generalizing start with
  | zero => exact .nil
  | succ count ih =>
    rw [wordsFrom_succ]
    rcases Nat.eq_zero_or_pos count with rfl | hcount
    · exact List.pairwise_singleton _ _
    · have hnext : (start + 1).toNat = start.toNat + 1 := by
        simp only [UInt32.size] at h
        rw [UInt32.toNat_add, show (1 : UInt32).toNat = 1 from rfl]
        omega
      have hbound : (start + 1).toNat + count ≤ UInt32.size := by omega
      refine .cons (fun v hv => ?_) (ih hbound)
      rw [mem_wordsFrom hbound] at hv
      rw [UInt32.lt_iff_toNat_lt]
      omega

lemma nodup_wordsFrom {start : UInt32} {count : Nat} (h : start.toNat + count ≤ UInt32.size) :
    (wordsFrom start count).Nodup := by
  refine (pairwise_wordsFrom h).imp ?_
  rintro v w hlt rfl
  exact UInt32.lt_irrefl _ hlt

namespace Step

variable {σ τ α ι : Type} {f g : Step σ}

/-! ### Sequences -/

lemma upwards_eq_each {f : UInt32 → Step σ} {count : Nat} {start : UInt32} :
    upwards f count start = each f (wordsFrom start count) := by
  induction count generalizing start with
  | zero => rfl
  | succ count ih => rw [wordsFrom_succ, upwards, each, ih]

lemma andThen_of_ok {s s' : σ} (h : f s = (s', .ok ())) : f.andThen g s = g s' := by
  simp [andThen, h]

lemma andThen_of_error {s s' : σ} {fault : Fault} (h : f s = (s', .error fault)) :
    f.andThen g s = (s', .error fault) := by
  simp [andThen, h]

/-- Where the first step succeeds, the second goes on. -/
lemma andThen_of_snd_ok {s : σ} (h : (f s).2 = .ok ()) : f.andThen g s = g (f s).1 :=
  andThen_of_ok (Prod.ext rfl h)

lemma andThen_eq_ok {s : σ} :
    (f.andThen g s).2 = .ok () ↔ (f s).2 = .ok () ∧ (g (f s).1).2 = .ok () := by
  rcases hfs : f s with ⟨s', _ | _⟩
  · simp [andThen_of_error hfs]
  · simp [andThen_of_ok hfs]

@[simp] lemma skip_andThen : skip.andThen f = f := rfl

@[simp] lemma andThen_skip : f.andThen skip = f := by
  funext s
  rcases hfs : f s with ⟨s', _ | _⟩
  · rw [andThen_of_error hfs]
  · rw [andThen_of_ok hfs]
    rfl

lemma each_skip {is : List ι} : each (fun _ => (skip : Step σ)) is = skip := by
  induction is with
  | nil => rfl
  | cons i is ih => rw [each, ih, skip_andThen]

/-- Of the members of a list, at most one is a given one. -/
lemma each_ite_eq [DecidableEq ι] {is : List ι} (hnodup : is.Nodup) (i : ι) :
    each (fun j => if j = i then f else skip) is = if i ∈ is then f else skip := by
  induction is with
  | nil => rfl
  | cons j is ih =>
    obtain ⟨hj, hnodup⟩ := List.nodup_cons.1 hnodup
    rw [each, ih hnodup]
    by_cases hji : j = i
    · subst hji
      simp [hj]
    · simp [hji, Ne.symm hji]

/-- Where some members of a list give a step and the others none, only the former count. -/
lemma each_elim {κ : Type} {f : κ → Step σ} {g : ι → Option κ} {is : List ι} :
    each (fun i => (g i).elim skip f) is = each f (is.filterMap g) := by
  induction is with
  | nil => rfl
  | cons i is ih =>
    rw [each, ih, List.filterMap_cons]
    cases g i with
    | none => rfl
    | some k => rfl

/-! ### Changes as a whole -/

/-- What a change leaves and gives that is made as a whole or not at all. -/
def atOnce (s : σ) : Except Fault σ → σ × Except Fault Unit
  | .ok s' => (s', .ok ())
  | .error fault => (s, .error fault)

section AtOnce

variable {s : σ} {look : σ → Except Fault α} {next : α → Step σ}

lemma looking_of_ok {a : α} (h : look s = .ok a) : looking look next s = next a s := by
  rw [looking, h]

lemma looking_of_error {fault : Fault} (h : look s = .error fault) :
    looking look next s = (s, .error fault) := by
  rw [looking, h]

/-- A check that fails ends the work, and one that succeeds changes nothing. -/
lemma looking_andThen_skip :
    (looking look fun _ => skip).andThen f s = looking look (fun _ => f) s := by
  rcases h : look s with fault | a
  · rw [looking_of_error h, andThen_of_error (looking_of_error h)]
  · have hskip : looking look (fun _ => skip) s = (s, .ok ()) := looking_of_ok h
    rw [looking_of_ok h, andThen_of_ok hskip]

/-- A part that is changed as a whole, or put back as it was, changes the state as a whole. -/
lemma onPart_eq_atOnce {part : σ → Except Fault τ} {put : τ → σ → σ} {f : Step τ}
    {change : τ → Except Fault τ} (hf : ∀ t, part s = .ok t → f t = atOnce t (change t))
    (hput : ∀ t, part s = .ok t → put t s = s) :
    onPart part put f s =
      atOnce s (do
        let t ← part s
        return put (← change t) s) := by
  unfold onPart
  rcases hpart : part s with fault | t
  · rfl
  · have hkept := hput t hpart
    have hstep := hf t hpart
    rcases hchange : change t with fault | t' <;> rw [hchange] at hstep
    · simp only [hstep, atOnce, hkept, bind, Except.bind, hchange]
    · simp only [hstep, atOnce, bind, Except.bind, hchange, pure, Except.pure]

end AtOnce

/-! ### Invariants and faults -/

/-- Where the invariant holds, it holds after the step too, and if the step fails, then with one of
some faults. -/
def Maintains (f : Step σ) (I : σ → Prop) (fails : Fault → Prop) : Prop :=
  ∀ s, I s → I (f s).1 ∧ ∀ fault, (f s).2 = .error fault → fails fault

section Maintains

variable {I : σ → Prop} {fails : Fault → Prop}

lemma Maintains.andThen (hf : f.Maintains I fails) (hg : g.Maintains I fails) :
    (f.andThen g).Maintains I fails := by
  intro s hs
  obtain ⟨hstate, hfails⟩ := hf s hs
  rcases hfs : f s with ⟨s', _ | _⟩ <;> rw [hfs] at hstate hfails
  · rw [andThen_of_error hfs]
    exact ⟨hstate, hfails⟩
  · rw [andThen_of_ok hfs]
    exact hg s' hstate

/-- What every step maintains, steps in a row maintain. -/
lemma Maintains.each {f : ι → Step σ} {is : List ι} (hf : ∀ i ∈ is, (f i).Maintains I fails) :
    (Step.each f is).Maintains I fails := by
  induction is with
  | nil => exact fun s hs => ⟨hs, by simp [Step.each, skip]⟩
  | cons i is ih => exact (hf i (by simp)).andThen (ih fun j hj => hf j (List.mem_cons_of_mem i hj))

end Maintains

/-! ### Outcomes that do not depend on the state -/

/-- Where the invariant holds, it holds after the step too, and whether the step succeeds is decided
by what does not depend on the state. -/
def Decides (f : Step σ) (I : σ → Prop) (P : Prop) : Prop :=
  ∀ s, I s → I (f s).1 ∧ ((f s).2 = .ok () ↔ P)

/-- Steps in a row succeed if it was decided that each of them does. -/
lemma Decides.each {I : σ → Prop} {f : ι → Step σ} {P : ι → Prop} {is : List ι}
    (h : ∀ i ∈ is, (f i).Decides I (P i)) : (Step.each f is).Decides I (∀ i ∈ is, P i) := by
  induction is with
  | nil => exact fun s hs => ⟨hs, by simp [Step.each, skip]⟩
  | cons i is ih =>
    intro s hs
    obtain ⟨hstate, hfirst⟩ := h i (by simp) s hs
    rw [List.forall_mem_cons, ← hfirst, Step.each]
    rcases hfs : f i s with ⟨s', fault | _⟩ <;> rw [hfs] at hstate
    · simp [andThen_of_error hfs, hstate]
    · simpa [andThen_of_ok hfs] using ih (fun j hj => h j (List.mem_cons_of_mem i hj)) s' hstate

/-- Wherever the step starts, it comes to a state that is related to the first, and if it fails,
then with one of some faults. -/
def Satisfies (f : Step σ) (keeps : σ → σ → Prop) (fails : Fault → Prop) : Prop :=
  ∀ s, keeps s (f s).1 ∧ ∀ fault, (f s).2 = .error fault → fails fault

/-- A preorder that every step keeps is an invariant, the first state being fixed. -/
lemma Satisfies.maintains {keeps : σ → σ → Prop} {fails : Fault → Prop}
    (htrans : ∀ a b c, keeps a b → keeps b c → keeps a c) (hf : f.Satisfies keeps fails) (s : σ) :
    f.Maintains (keeps s) fails :=
  fun s' hs' => ⟨htrans _ _ _ hs' (hf s').1, (hf s').2⟩

/-! ### Two states at once -/

/-- Where the first step succeeds on one of two related states, the other step succeeds on the
other, and they come to related states. -/
def Follows (g : Step τ) (R : σ → τ → Prop) (f : Step σ) : Prop :=
  ∀ s t, R s t → (f s).2 = .ok () → R (f s).1 (g t).1 ∧ (g t).2 = .ok ()

section Follows

variable {R : σ → τ → Prop}

lemma Follows.andThen {f f' : Step σ} {g g' : Step τ} (h : g.Follows R f) (h' : g'.Follows R f') :
    (g.andThen g').Follows R (f.andThen f') := by
  intro s t hR hok
  obtain ⟨hf, hf'⟩ := andThen_eq_ok.1 hok
  obtain ⟨hR', hg⟩ := h s t hR hf
  rw [andThen_of_snd_ok hf, andThen_of_snd_ok hg]
  exact h' _ _ hR' hf'

lemma Follows.each {f : ι → Step σ} {g : ι → Step τ} {is : List ι}
    (h : ∀ i ∈ is, (g i).Follows R (f i)) : (Step.each g is).Follows R (Step.each f is) := by
  induction is with
  | nil => exact fun s t hR _ => ⟨hR, rfl⟩
  | cons i is ih => exact (h i (by simp)).andThen (ih fun j hj => h j (List.mem_cons_of_mem i hj))

/-- Steps in a row are followed by some of them, if the others need not be followed. -/
lemma Follows.each_filter {f : ι → Step σ} {g : ι → Step τ} {is : List ι} {p : ι → Bool}
    (h : ∀ i ∈ is, p i → (g i).Follows R (f i)) (hskip : ∀ i ∈ is, ¬p i → skip.Follows R (f i)) :
    (Step.each g (is.filter p)).Follows R (Step.each f is) := by
  induction is with
  | nil => exact fun s t hR _ => ⟨hR, rfl⟩
  | cons i is ih =>
    have hrest := ih (fun j hj => h j (List.mem_cons_of_mem i hj))
      fun j hj => hskip j (List.mem_cons_of_mem i hj)
    by_cases hi : p i
    · rw [List.filter_cons_of_pos hi]
      exact (h i (by simp) hi).andThen hrest
    · rw [List.filter_cons_of_neg hi]
      exact (hskip i (by simp) hi).andThen hrest

end Follows

/-! ### Places that are changed apart -/

/-- Seen at each of several places, the step does what a step of its own does there. It succeeds if
all of these do. -/
def SplitsInto {κ : Type} (f : Step σ) (R : κ → σ → τ → Prop) (g : κ → Step τ) : Prop :=
  ∀ (s : σ) (t : κ → τ), (∀ k, R k s (t k)) →
    ((f s).2 = .ok () ↔ ∀ k, (g k (t k)).2 = .ok ()) ∧
      ((f s).2 = .ok () → ∀ k, R k (f s).1 (g k (t k)).1)

section SplitsInto

variable {κ : Type} {R : κ → σ → τ → Prop}

lemma skip_splitsInto : (skip : Step σ).SplitsInto R fun _ => skip :=
  fun _ _ hR => ⟨by simp [skip], fun _ => hR⟩

lemma SplitsInto.andThen {f f' : Step σ} {g g' : κ → Step τ} (h : f.SplitsInto R g)
    (h' : f'.SplitsInto R g') : (f.andThen f').SplitsInto R fun k => (g k).andThen (g' k) := by
  intro s t hR
  obtain ⟨hiff, hstate⟩ := h s t hR
  simp only [andThen_eq_ok]
  -- after a failure nothing is claimed of the state; only that both sides fail
  by_cases hf : (f s).2 = .ok ()
  · have hg := hiff.1 hf
    obtain ⟨hiff', hstate'⟩ := h' (f s).1 (fun k => (g k (t k)).1) (hstate hf)
    rw [andThen_of_snd_ok hf]
    constructor
    · simp only [hf, true_and, hiff', hg]
    · rintro ⟨-, hf'⟩ k
      rw [andThen_of_snd_ok (hg k)]
      exact hstate' hf' k
  · constructor
    · constructor
      · rintro ⟨hok, -⟩
        exact absurd hok hf
      · intro hok
        exact absurd (hiff.2 fun k => (hok k).1) hf
    · rintro ⟨hok, -⟩
      exact absurd hok hf

/-- Steps in a row do at each place what the steps there do in a row. -/
lemma SplitsInto.each {f : ι → Step σ} {g : ι → κ → Step τ} {is : List ι}
    (h : ∀ i ∈ is, (f i).SplitsInto R (g i)) :
    (Step.each f is).SplitsInto R fun k => Step.each (fun i => g i k) is := by
  induction is with
  | nil => exact skip_splitsInto
  | cons i is ih => exact (h i (by simp)).andThen (ih fun j hj => h j (List.mem_cons_of_mem i hj))

end SplitsInto

/-! ### Projections -/

/-- Seen through a projection, the step does what another step does, which knows nothing of the rest
of the state. -/
def ProjectsTo (f : Step σ) (π : σ → τ) (g : Step τ) : Prop :=
  ∀ s, (π (f s).1, (f s).2) = g (π s)

variable {π : σ → τ}

lemma ProjectsTo.andThen {f' g' : Step τ} (hf : f.ProjectsTo π f') (hg : g.ProjectsTo π g') :
    (f.andThen g).ProjectsTo π (f'.andThen g') := by
  intro s
  have hproject := hf s
  rcases hfs : f s with ⟨s', _ | _⟩ <;> rw [hfs] at hproject
  · rw [andThen_of_error hfs, andThen_of_error hproject.symm]
  · rw [andThen_of_ok hfs, andThen_of_ok hproject.symm]
    exact hg s'

lemma ProjectsTo.each {f : ι → Step σ} {f' : ι → Step τ} {is : List ι}
    (hf : ∀ i, (f i).ProjectsTo π (f' i)) : (Step.each f is).ProjectsTo π (Step.each f' is) := by
  induction is with
  | nil => exact fun s => rfl
  | cons i is ih => exact (hf i).andThen ih

end Step

end GraphicsPipeline
