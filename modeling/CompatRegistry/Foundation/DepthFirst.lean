import Mathlib.Tactic
import Mathlib.Logic.Relation

/-! Three-colour depth-first cycle detection on an adjacency function. Colours
are shared by the whole search and the search stops at the first edge into a
grey node. The recursion is bounded by fuel; one unit for each white node is
always enough, so the fuel is never a limit on the graph. -/

namespace Foundation.DepthFirst

inductive Colour where
  | white | grey | black
  deriving DecidableEq, Repr

variable {α : Type*} [DecidableEq α]

/-- A node without a stored colour counts as white. -/
abbrev Colouring (α : Type*) := α → Colour

def visitAll (visit : α → Colouring α → Option (Bool × Colouring α)) :
    List α → Colouring α → Option (Bool × Colouring α)
  | [], color => some (false, color)
  | m :: ms, color =>
    match color m with
    | .grey => some (true, color)
    | .white =>
      match visit m color with
      | none => none
      | some (true, color) => some (true, color)
      | some (false, color) => visitAll visit ms color
    | .black => visitAll visit ms color

/-- Colour `n` grey, visit its successors, colour it black. -/
def dfs (g : α → List α) : ℕ → α → Colouring α → Option (Bool × Colouring α)
  | 0, _, _ => none
  | fuel + 1, n, color =>
    match visitAll (dfs g fuel) (g n) (Function.update color n .grey) with
    | none => none
    | some (true, color) => some (true, color)
    | some (false, color) => some (false, Function.update color n .black)

/-- Start a search at every root that is still white. -/
def search (g : α → List α) (fuel : ℕ) : List α → Colouring α → Option (Bool × Colouring α)
  | [], color => some (false, color)
  | n :: ns, color =>
    if color n = .white then
      match dfs g fuel n color with
      | none => none
      | some (true, color) => some (true, color)
      | some (false, color) => search g fuel ns color
    else search g fuel ns color

def Edge (g : α → List α) (a b : α) : Prop := b ∈ g a

/-- Some node reaches itself along at least one edge. -/
def Cyclic (g : α → List α) : Prop := ∃ x, Relation.TransGen (Edge g) x x

omit [DecidableEq α] in
/-- A graph with more edges keeps the cycles. -/
theorem Cyclic.mono {g g' : α → List α} (h : Cyclic g) (hg : ∀ a, ∀ b ∈ g a, b ∈ g' a) : Cyclic g' := by
  obtain ⟨x, hx⟩ := h
  exact ⟨x, Relation.TransGen.mono (fun a b hab => hg a b hab) x x hx⟩

/-! ### What a search reports -/

/-- The black nodes are closed under successors and lie on no cycle. -/
structure Settled (g : α → List α) (color : Colouring α) : Prop where
  closed : ∀ a, color a = .black → ∀ b ∈ g a, color b = .black
  acyclic : ∀ a, color a = .black → ¬ Relation.TransGen (Edge g) a a

/-- From `color` to `color'` only white nodes were settled. -/
structure Extends (color color' : Colouring α) : Prop where
  grey : ∀ a, color' a = .grey ↔ color a = .grey
  black : ∀ a, color a = .black → color' a = .black

omit [DecidableEq α] in
theorem Extends.refl (color : Colouring α) : Extends color color :=
  ⟨fun _ => Iff.rfl, fun _ h => h⟩

omit [DecidableEq α] in
theorem Extends.trans {c₁ c₂ c₃ : Colouring α} (h₁ : Extends c₁ c₂) (h₂ : Extends c₂ c₃) :
    Extends c₁ c₃ :=
  ⟨fun a => (h₂.grey a).trans (h₁.grey a), fun a h => h₂.black a (h₁.black a h)⟩

omit [DecidableEq α] in
theorem Settled.black_of_reaches {g : α → List α} {color : Colouring α} (hs : Settled g color)
    {a b : α} (ha : color a = .black) (hab : Relation.ReflTransGen (Edge g) a b) :
    color b = .black := by
  induction hab with
  | refl => exact ha
  | tail _ hbc ih => exact hs.closed _ ih _ hbc

/-- The verdict of a search that was started with the colouring `color`: a hit
is a cycle, and otherwise the targets are black. -/
def Reports (g : α → List α) (targets : List α) (color : Colouring α)
    (result : Bool × Colouring α) : Prop :=
  (result.1 = true → Cyclic g) ∧
    (result.1 = false → Settled g result.2 ∧ Extends color result.2 ∧
      ∀ m ∈ targets, result.2 m = .black)

/-- What the search of one node promises to its caller. -/
def Visits (g : α → List α) (visit : α → Colouring α → Option (Bool × Colouring α)) : Prop :=
  ∀ n color result, visit n color = some result → color n = .white → Settled g color →
    (∀ a, color a = .grey → Relation.TransGen (Edge g) a n) → Reports g [n] color result

omit [DecidableEq α] in
theorem visitAll_reports {g : α → List α} {visit : α → Colouring α → Option (Bool × Colouring α)}
    (hvisit : Visits g visit) {n : α} {ms : List α} (hms : ∀ m ∈ ms, m ∈ g n)
    {color : Colouring α} {result : Bool × Colouring α}
    (hrun : visitAll visit ms color = some result) (hs : Settled g color)
    (hgrey : ∀ a, color a = .grey → Relation.ReflTransGen (Edge g) a n) :
    Reports g ms color result := by
  induction ms generalizing color with
  | nil =>
    obtain rfl : (false, color) = result := by simpa [visitAll] using hrun
    exact ⟨by simp, fun _ => ⟨hs, Extends.refl _, by simp⟩⟩
  | cons m ms ih =>
    have hedge : Edge g n m := hms m List.mem_cons_self
    have hms' : ∀ x ∈ ms, x ∈ g n := fun x hx => hms x (List.mem_cons_of_mem _ hx)
    -- the tail of the successors, searched with a colouring in which `m` is black
    have htail : ∀ c : Colouring α, visitAll visit ms c = some result → Settled g c →
        Extends color c → c m = .black → Reports g (m :: ms) color result := by
      intro c hc hsc hext hm
      obtain ⟨hhit, hmiss⟩ := ih hms' hc hsc fun a ha => hgrey a ((hext.grey a).mp ha)
      refine ⟨hhit, fun h => ?_⟩
      obtain ⟨hs', hext', hblack⟩ := hmiss h
      refine ⟨hs', hext.trans hext', fun x hx => ?_⟩
      rcases List.mem_cons.mp hx with rfl | hx
      · exact hext'.black _ hm
      · exact hblack x hx
    rw [visitAll] at hrun
    cases hm : color m with
    | grey =>
      simp only [hm, Option.some.injEq] at hrun
      subst hrun
      exact ⟨fun _ => ⟨m, Relation.TransGen.tail' (hgrey m hm) hedge⟩, by simp⟩
    | black =>
      simp only [hm] at hrun
      exact htail color hrun hs (Extends.refl _) hm
    | white =>
      simp only [hm] at hrun
      cases hv : visit m color with
      | none => simp [hv] at hrun
      | some r =>
        obtain ⟨hit, c⟩ := r
        have hspec := hvisit m color _ hv hm hs fun a ha => Relation.TransGen.tail' (hgrey a ha) hedge
        cases hit with
        | true =>
          simp only [hv, Option.some.injEq] at hrun
          subst hrun
          exact ⟨fun _ => hspec.1 rfl, by simp⟩
        | false =>
          simp only [hv] at hrun
          obtain ⟨hs', hext, hblack⟩ := hspec.2 rfl
          exact htail c hrun hs' hext (hblack m (by simp))

/-- A node whose successors are all settled can be settled itself: a cycle
through it would come back along black nodes only. -/
theorem Settled.update {g : α → List α} {n : α} {color : Colouring α} (hs : Settled g color)
    (hn : color n = .grey) (hsucc : ∀ m ∈ g n, color m = .black) :
    Settled g (Function.update color n .black) := by
  have hne : ∀ a, color a = .black → a ≠ n := by
    rintro a ha rfl
    simp [ha] at hn
  have hold : ∀ a, color a = .black → Function.update color n .black a = .black := fun a ha => by
    rw [Function.update_of_ne (hne a ha), ha]
  have hcases : ∀ a, Function.update color n .black a = .black → a = n ∨ color a = .black := by
    intro a ha
    by_cases h : a = n
    · exact Or.inl h
    · exact Or.inr (by rwa [Function.update_of_ne h] at ha)
  refine ⟨fun a ha b hb => ?_, fun a ha hcycle => ?_⟩
  · rcases hcases a ha with rfl | ha
    · exact hold b (hsucc b hb)
    · exact hold b (hs.closed a ha b hb)
  · rcases hcases a ha with rfl | ha
    · obtain ⟨b, hab, hba⟩ := Relation.TransGen.head'_iff.mp hcycle
      exact hne _ (hs.black_of_reaches (hsucc b hab) hba) rfl
    · exact hs.acyclic a ha hcycle

theorem dfs_visits (g : α → List α) (fuel : ℕ) : Visits g (dfs g fuel) := by
  induction fuel with
  | zero => intro n color result h; simp [dfs] at h
  | succ fuel ih =>
    intro n color result hrun hwhite hs hgrey
    set entered := Function.update color n .grey with hentered
    have hne : ∀ a, entered a = .black → a ≠ n := by
      rintro a ha rfl
      simp [hentered] at ha
    have hs' : Settled g entered := by
      have hblack : ∀ a, color a = .black → entered a = .black := by
        intro a ha
        have : a ≠ n := by rintro rfl; simp [hwhite] at ha
        rw [hentered, Function.update_of_ne this, ha]
      have hback : ∀ a, entered a = .black → color a = .black := fun a ha => by
        rwa [hentered, Function.update_of_ne (hne a ha)] at ha
      exact ⟨fun a ha b hb => hblack b (hs.closed a (hback a ha) b hb),
        fun a ha => hs.acyclic a (hback a ha)⟩
    have hgrey' : ∀ a, entered a = .grey → Relation.ReflTransGen (Edge g) a n := by
      intro a ha
      by_cases h : a = n
      · exact h ▸ Relation.ReflTransGen.refl
      · exact (hgrey a (by rwa [hentered, Function.update_of_ne h] at ha)).to_reflTransGen
    rw [dfs, ← hentered] at hrun
    cases hv : visitAll (dfs g fuel) (g n) entered with
    | none => simp [hv] at hrun
    | some r =>
      obtain ⟨hit, c⟩ := r
      have hspec := visitAll_reports ih (fun _ h => h) hv hs' hgrey'
      cases hit with
      | true =>
        simp only [hv, Option.some.injEq] at hrun
        subst hrun
        exact ⟨fun _ => hspec.1 rfl, by simp⟩
      | false =>
        simp only [hv, Option.some.injEq] at hrun
        subst hrun
        obtain ⟨hsc, hext, hblack⟩ := hspec.2 rfl
        have hn : c n = .grey := (hext.grey n).mpr (by simp [hentered])
        refine ⟨by simp, fun _ => ⟨hsc.update hn hblack, ⟨fun a => ?_, fun a ha => ?_⟩, by simp⟩⟩
        · by_cases h : a = n
          · subst h; simp [hwhite]
          · simp only [Function.update_of_ne h]
            rw [hext.grey a, hentered, Function.update_of_ne h]
        · have h : a ≠ n := by rintro rfl; simp [hwhite] at ha
          simp only [Function.update_of_ne h]
          exact hext.black a (by rw [hentered, Function.update_of_ne h, ha])

theorem search_reports {g : α → List α} {fuel : ℕ} {roots : List α} {color : Colouring α}
    {result : Bool × Colouring α} (hrun : search g fuel roots color = some result)
    (hs : Settled g color) (hgrey : ∀ a, color a ≠ .grey) : Reports g roots color result := by
  induction roots generalizing color with
  | nil =>
    obtain rfl : (false, color) = result := by simpa [search] using hrun
    exact ⟨by simp, fun _ => ⟨hs, Extends.refl _, by simp⟩⟩
  | cons n ns ih =>
    have htail : ∀ c : Colouring α, search g fuel ns c = some result → Settled g c →
        Extends color c → c n = .black → Reports g (n :: ns) color result := by
      intro c hc hsc hext hn
      obtain ⟨hhit, hmiss⟩ := ih hc hsc fun a ha => hgrey a ((hext.grey a).mp ha)
      refine ⟨hhit, fun h => ?_⟩
      obtain ⟨hs', hext', hblack⟩ := hmiss h
      refine ⟨hs', hext.trans hext', fun x hx => ?_⟩
      rcases List.mem_cons.mp hx with rfl | hx
      · exact hext'.black _ hn
      · exact hblack x hx
    rw [search] at hrun
    split_ifs at hrun with hn
    · cases hv : dfs g fuel n color with
      | none => simp [hv] at hrun
      | some r =>
        obtain ⟨hit, c⟩ := r
        have hspec := dfs_visits g fuel n color _ hv hn hs fun a ha => absurd ha (hgrey a)
        cases hit with
        | true =>
          simp only [hv, Option.some.injEq] at hrun
          subst hrun
          exact ⟨fun _ => hspec.1 rfl, by simp⟩
        | false =>
          simp only [hv] at hrun
          obtain ⟨hs', hext, hblack⟩ := hspec.2 rfl
          exact htail c hrun hs' hext (hblack n (by simp))
    · apply htail color hrun hs (Extends.refl _)
      have := hgrey n
      cases h : color n <;> simp_all

/-- On a colouring that is white everywhere the search decides cyclicity, as
soon as every node with a successor is a root. -/
theorem search_iff {g : α → List α} {fuel : ℕ} {roots : List α} {result : Bool × Colouring α}
    (hroots : ∀ a, g a ≠ [] → a ∈ roots)
    (hrun : search g fuel roots (fun _ => .white) = some result) :
    result.1 = true ↔ Cyclic g := by
  have hspec := search_reports hrun ⟨by simp, by simp⟩ (by simp)
  refine ⟨hspec.1, fun ⟨x, hx⟩ => ?_⟩
  by_contra hmiss
  obtain ⟨hs, -, hblack⟩ := hspec.2 (by simpa using hmiss)
  obtain ⟨y, hxy, -⟩ := Relation.TransGen.head'_iff.mp hx
  exact hs.acyclic x (hblack x (hroots x (List.ne_nil_of_mem hxy))) hx

/-! ### The fuel suffices -/

/-- The number of occurrences of white nodes in `nodes`. -/
def whites (nodes : List α) (color : Colouring α) : ℕ :=
  nodes.countP fun a => color a = .white

/-- From `color` to `color'` no node became white. -/
def Darkens (color color' : Colouring α) : Prop := ∀ a, color' a = .white → color a = .white

omit [DecidableEq α] in
theorem whites_le (nodes : List α) {color color' : Colouring α} (h : Darkens color color') :
    whites nodes color' ≤ whites nodes color :=
  List.countP_mono_left fun a _ ha => by simpa using h a (by simpa using ha)

theorem whites_update_lt {nodes : List α} {color : Colouring α} {n : α} (hn : n ∈ nodes)
    (hwhite : color n = .white) : whites nodes (Function.update color n .grey) < whites nodes color := by
  obtain ⟨a, b, rfl⟩ := List.append_of_mem hn
  have hd : Darkens color (Function.update color n .grey) := by
    intro x hx
    by_cases h : x = n
    · exact h ▸ hwhite
    · rwa [Function.update_of_ne h] at hx
  have ha := whites_le a hd
  have hb := whites_le b hd
  simp only [whites, List.countP_append, List.countP_cons, Function.update_self, hwhite] at ha hb ⊢
  simp only [decide_true, if_true, reduceCtorEq, decide_false, Bool.false_eq_true, if_false]
  omega

/-- A visit of a white node succeeds on `k` white nodes and makes none. -/
def Succeeds (nodes : List α) (k : ℕ) (visit : α → Colouring α → Option (Bool × Colouring α)) :
    Prop :=
  ∀ n color, n ∈ nodes → color n = .white → whites nodes color ≤ k →
    ∃ result, visit n color = some result ∧ Darkens color result.2

omit [DecidableEq α] in
theorem visitAll_succeeds {nodes : List α} {k : ℕ}
    {visit : α → Colouring α → Option (Bool × Colouring α)} (hvisit : Succeeds nodes k visit)
    {ms : List α} (hms : ∀ m ∈ ms, m ∈ nodes) {color : Colouring α} (hk : whites nodes color ≤ k) :
    ∃ result, visitAll visit ms color = some result ∧ Darkens color result.2 := by
  induction ms generalizing color with
  | nil => exact ⟨_, rfl, fun _ h => h⟩
  | cons m ms ih =>
    have htail : ∀ x ∈ ms, x ∈ nodes := fun x hx => hms x (List.mem_cons_of_mem _ hx)
    rw [visitAll]
    cases hm : color m with
    | grey => exact ⟨_, rfl, fun _ h => h⟩
    | black => exact ih htail hk
    | white =>
      obtain ⟨⟨hit, c⟩, hv, hd⟩ := hvisit m color (hms m List.mem_cons_self) hm hk
      simp only [hv]
      cases hit with
      | true => exact ⟨_, rfl, hd⟩
      | false =>
        obtain ⟨result, hr, hd'⟩ := ih htail ((whites_le nodes hd).trans hk)
        exact ⟨result, hr, fun a ha => hd a (hd' a ha)⟩

theorem dfs_succeeds {g : α → List α} {nodes : List α} (hnodes : ∀ a ∈ nodes, ∀ b ∈ g a, b ∈ nodes)
    (fuel : ℕ) : Succeeds nodes fuel (dfs g fuel) := by
  induction fuel with
  | zero =>
    intro n color hn hwhite hk
    have : 0 < whites nodes color := List.countP_pos_iff.mpr ⟨n, hn, by simpa using hwhite⟩
    omega
  | succ fuel ih =>
    intro n color hn hwhite hk
    have hlt := whites_update_lt hn hwhite
    have hk' : whites nodes (Function.update color n .grey) ≤ fuel := by omega
    obtain ⟨⟨hit, c⟩, hv, hd⟩ := visitAll_succeeds ih (hnodes n hn) hk'
    have hdark : ∀ a, c a = .white → color a = .white := by
      intro a ha
      have := hd a ha
      by_cases h : a = n
      · exact h ▸ hwhite
      · rwa [Function.update_of_ne h] at this
    rw [dfs, hv]
    cases hit with
    | true => exact ⟨_, rfl, hdark⟩
    | false =>
      refine ⟨_, rfl, fun a ha => ?_⟩
      by_cases h : a = n
      · exact h ▸ hwhite
      · have hc : Function.update c n .black a = .white := ha
        exact hdark a (by rwa [Function.update_of_ne h] at hc)

theorem search_succeeds {g : α → List α} {nodes : List α}
    (hnodes : ∀ a ∈ nodes, ∀ b ∈ g a, b ∈ nodes) {fuel : ℕ} (hfuel : nodes.length ≤ fuel)
    {roots : List α} (hroots : ∀ a ∈ roots, a ∈ nodes) (color : Colouring α) :
    ∃ result, search g fuel roots color = some result := by
  induction roots generalizing color with
  | nil => exact ⟨_, rfl⟩
  | cons n ns ih =>
    have ih' := ih fun a ha => hroots a (List.mem_cons_of_mem _ ha)
    rw [search]
    split_ifs with hn
    · obtain ⟨⟨hit, c⟩, hv, -⟩ := dfs_succeeds hnodes fuel n color (hroots n List.mem_cons_self) hn
        (List.countP_le_length.trans hfuel)
      simp only [hv]
      cases hit with
      | true => exact ⟨_, rfl⟩
      | false => exact ih' c
    · exact ih' color

/-! ### More fuel changes nothing -/

omit [DecidableEq α] in
theorem visitAll_mono {visit visit' : α → Colouring α → Option (Bool × Colouring α)}
    (hvisit : ∀ n color result, visit n color = some result → visit' n color = some result)
    {ms : List α} {color : Colouring α} {result : Bool × Colouring α}
    (hrun : visitAll visit ms color = some result) : visitAll visit' ms color = some result := by
  induction ms generalizing color with
  | nil => exact hrun
  | cons m ms ih =>
    rw [visitAll] at hrun ⊢
    cases hm : color m with
    | grey => simpa only [hm] using hrun
    | black =>
      simp only [hm] at hrun ⊢
      exact ih hrun
    | white =>
      simp only [hm] at hrun ⊢
      cases hv : visit m color with
      | none => simp [hv] at hrun
      | some r =>
        obtain ⟨hit, c⟩ := r
        rw [hvisit m color _ hv]
        cases hit with
        | true => simpa only [hv] using hrun
        | false =>
          simp only [hv] at hrun ⊢
          exact ih hrun

theorem dfs_succ {g : α → List α} {fuel : ℕ} {n : α} {color : Colouring α} {result : Bool × Colouring α}
    (hrun : dfs g fuel n color = some result) : dfs g (fuel + 1) n color = some result := by
  induction fuel generalizing n color result with
  | zero => simp [dfs] at hrun
  | succ fuel ih =>
    rw [dfs] at hrun ⊢
    cases hv : visitAll (dfs g fuel) (g n) (Function.update color n .grey) with
    | none => simp [hv] at hrun
    | some r =>
      rw [visitAll_mono (fun _ _ _ h => ih h) hv]
      rwa [hv] at hrun

theorem search_mono {g : α → List α} {fuel fuel' : ℕ} (hle : fuel ≤ fuel') {roots : List α}
    {color : Colouring α} {result : Bool × Colouring α} (hrun : search g fuel roots color = some result) :
    search g fuel' roots color = some result := by
  have hdfs : ∀ n color result, dfs g fuel n color = some result → dfs g fuel' n color = some result := by
    intro n color result h
    induction hle with
    | refl => exact h
    | step _ ih => exact dfs_succ ih
  induction roots generalizing color with
  | nil => exact hrun
  | cons n ns ih =>
    rw [search] at hrun ⊢
    split_ifs at hrun ⊢ with hn
    · cases hv : dfs g fuel n color with
      | none => simp [hv] at hrun
      | some r =>
        obtain ⟨hit, c⟩ := r
        rw [hdfs n color _ hv]
        cases hit with
        | true => simpa only [hv] using hrun
        | false =>
          simp only [hv] at hrun ⊢
          exact ih hrun
    · exact ih hrun

end Foundation.DepthFirst
