import SpecterComs.Library.ExceptBind
import SpecterComs.Library.Forest
import SpecterComs.Model.Portal.TreeLayout
import Mathlib.Data.List.GetD
import Mathlib.Tactic.Positivity

/-! # The layout of a forest

Every two siblings are as far apart as their contours ask for, whatever was pushed on the way. The
contours bound every box below a node, so that any two boxes of the same depth are apart by what
the deepest subtrees that hold them ask for.
-/

namespace SpecterComs.TreeLayout

/-! ## The places of siblings -/

section Siblings

variable {need : ℕ → ℕ → ℚ} {pos : List ℚ} {i j k : ℕ} {push : ℚ}

/-- The first `n` places are as far apart as needed, each from all before it. -/
def Apart (need : ℕ → ℕ → ℚ) (pos : List ℚ) (n : ℕ) : Prop :=
  ∀ a b, a < b → b < n → need a b ≤ pos.getD b 0 - pos.getD a 0

/-- What a push of `i` by `j` adds to place `k`. -/
def share (j i : ℕ) (push : ℚ) (k : ℕ) : ℚ :=
  if k ≤ j then 0 else push * (k - j) / (i - j)

theorem share_start : share j i push j = 0 :=
  if_pos le_rfl

theorem share_end (h : j < i) : share j i push i = push := by
  have hne : (i : ℚ) - j ≠ 0 := sub_ne_zero.mpr (by exact_mod_cast h.ne')
  rw [share, if_neg (by omega)]
  exact mul_div_cancel_right₀ push hne

/-- A push only ever widens the rooms. -/
theorem share_mono {a b : ℕ} (hpush : 0 ≤ push) (hji : j < i) (hab : a ≤ b) :
    share j i push a ≤ share j i push b := by
  have hpos : (0 : ℚ) ≤ (i : ℚ) - j := sub_nonneg.mpr (by exact_mod_cast hji.le)
  unfold share
  split_ifs with ha hb hb
  · exact le_rfl
  · have hb' : (0 : ℚ) ≤ (b : ℚ) - j := sub_nonneg.mpr (by exact_mod_cast (not_le.mp hb).le)
    positivity
  · omega
  · have hab' : (a : ℚ) ≤ b := by exact_mod_cast hab
    gcongr

@[simp] theorem length_spread : (spread pos j i push).length = pos.length := by
  simp [spread]

theorem spread_getD (hji : j < i) (hk : k ≤ i) (hlen : i < pos.length) :
    (spread pos j i push).getD k 0 = pos.getD k 0 + share j i push k := by
  have hlt : k < pos.length := by omega
  simp only [spread, List.getD_eq_getElem?_getD, List.getElem?_mapIdx,
    List.getElem?_eq_getElem hlt, Option.map_some, Option.getD_some]
  split_ifs with heq hbetween
  · rw [← heq] at hji ⊢
    rw [share_end hji]
  · rw [share, if_neg (by omega)]
  · rw [share, if_pos (by omega), add_zero]

/-- One push keeps what is apart, and makes room for the one that is pushed. -/
theorem Apart.spread (h : Apart need pos i) (hpush : 0 ≤ push) (hji : j < i)
    (hlen : i < pos.length) : Apart need (spread pos j i push) i := by
  intro a b hab hb
  rw [spread_getD hji hb.le hlen, spread_getD hji (hab.trans hb).le hlen]
  linarith [h a b hab hb, share_mono hpush hji hab.le]

/-- Subtree `i` clears those from the right to the left, and all before stay apart. -/
theorem clear_apart (h : Apart need pos i) (hlen : pos.length = i + 1) (hj : j ≤ i)
    (hclear : ∀ k, j ≤ k → k < i → need k i ≤ pos.getD i 0 - pos.getD k 0) :
    (clear need i j pos).length = i + 1 ∧ Apart need (clear need i j pos) (i + 1) := by
  induction j generalizing pos with
  | zero =>
      refine ⟨hlen, fun a b hab hb => ?_⟩
      rcases Nat.lt_succ_iff_lt_or_eq.mp hb with hb | rfl
      · exact h a b hab hb
      · exact hclear a (Nat.zero_le a) hab
  | succ j ih =>
      have hji : j < i := hj
      have hi : i < pos.length := by omega
      rw [clear]
      split_ifs with hpush
      · refine ih (h.spread hpush.le hji hi) (by simp [hlen]) hji.le fun k hjk hki => ?_
        rw [spread_getD hji le_rfl hi, spread_getD hji hki.le hi, share_end hji]
        rcases Nat.eq_or_lt_of_le hjk with rfl | hjk
        · rw [share_start]
          linarith
        · have hshare := share_mono hpush.le hji hki.le
          rw [share_end hji] at hshare
          linarith [hclear k hjk hki]
      · refine ih h hlen hji.le fun k hjk hki => ?_
        rcases Nat.eq_or_lt_of_le hjk with rfl | hjk
        · linarith
        · exact hclear k hjk hki

theorem placeNext_apart (h : Apart need pos pos.length) (hne : pos ≠ []) :
    (placeNext need pos pos.length).length = pos.length + 1 ∧
      Apart need (placeNext need pos pos.length) (pos.length + 1) := by
  have hpos : 0 < pos.length := List.length_pos_iff.mpr hne
  have hold : ∀ (q : ℚ) k, k < pos.length → (pos ++ [q]).getD k 0 = pos.getD k 0 := by
    intro q k hk
    exact List.getD_append _ _ _ _ hk
  refine clear_apart (fun a b hab hb => ?_) (by simp) (Nat.sub_le _ _) fun k hk hki => ?_
  · rw [hold _ b hb, hold _ a (hab.trans hb)]
    exact h a b hab hb
  · obtain rfl : k = pos.length - 1 := by omega
    rw [hold _ _ hki]
    simp

theorem foldl_placeNext (m : ℕ) (h : Apart need pos pos.length) (hne : pos ≠ []) :
    ((List.range' pos.length m).foldl (placeNext need) pos).length = pos.length + m ∧
      Apart need ((List.range' pos.length m).foldl (placeNext need) pos) (pos.length + m) := by
  induction m generalizing pos with
  | zero => exact ⟨rfl, h⟩
  | succ m ih =>
      obtain ⟨hlen, hapart⟩ := placeNext_apart h hne
      have hstep := ih (hlen ▸ hapart) (List.ne_nil_of_length_pos (by omega))
      rw [hlen] at hstep
      rw [List.range'_succ, List.foldl_cons]
      have hm : pos.length + (m + 1) = pos.length + 1 + m := by omega
      rw [hm]
      exact hstep

end Siblings

variable {Id : Type} {subs : List (Sub Id)} {opt : Options}

/-- There is a place for each of the siblings, and any two are as far apart as needed. -/
theorem placeSiblings_spec (hne : subs ≠ []) :
    (placeSiblings subs opt).length = subs.length ∧
      Apart (needBetween subs opt) (placeSiblings subs opt) subs.length := by
  have hlen : 0 < subs.length := List.length_pos_iff.mpr hne
  have hone : Apart (needBetween subs opt) [0] 1 := by
    intro a b hab hb
    omega
  have h := foldl_placeNext (subs.length - 1) hone (List.cons_ne_nil 0 [])
  have hall : [(0 : ℚ)].length + (subs.length - 1) = subs.length := by
    simp only [List.length_singleton]
    omega
  rwa [hall] at h

/-- Every two siblings are as far apart as their contours ask for. -/
def Packed (opt : Options) (subs : List (Sub Id)) (pos : List ℚ) : Prop :=
  (subs.zip pos).Pairwise fun s t => separation s.1.contour t.1.contour opt ≤ t.2 - s.2

theorem packed_placeSiblings (hne : subs ≠ []) : Packed opt subs (placeSiblings subs opt) := by
  obtain ⟨hlen, hapart⟩ := @placeSiblings_spec Id subs opt hne
  rw [Packed, List.pairwise_iff_getElem]
  intro a b ha hb hab
  have hb' : b < subs.length := by simpa [hlen] using hb
  have hneed := hapart a b hab hb'
  have ha' : a < subs.length := hab.trans hb'
  simpa [needBetween, List.getD_eq_getElem?_getD, hlen, ha', hb'] using hneed

theorem Packed.map {pos : List ℚ} (h : Packed opt subs pos) (mid : ℚ) :
    Packed opt subs (pos.map fun p => p - mid) := by
  rw [Packed, List.zip_map_right, List.pairwise_map]
  simpa [Packed] using h

/-! ## Contours -/

section Contours

variable {a b : Contour} {rows as bs : List Row} {r ra rb : Row} {e : ℕ}

theorem le_foldl_max {l : List ℚ} {m x : ℚ} (h : x ≤ m ∨ x ∈ l) : x ≤ l.foldl max m := by
  induction l generalizing m with
  | nil => simpa using h
  | cons y l ih =>
      apply ih
      rcases h with h | h
      · exact .inl (h.trans (le_max_left m y))
      · rcases List.mem_cons.mp h with rfl | h
        · exact .inl (le_max_right m x)
        · exact .inr h

theorem top_le_separation :
    a.top.right - b.top.left + opt.siblingGap ≤ separation a b opt :=
  le_foldl_max (.inl le_rfl)

theorem lower_le_separation (ha : a.lower[e]? = some ra) (hb : b.lower[e]? = some rb) :
    ra.right - rb.left + opt.subtreeGap ≤ separation a b opt := by
  apply le_foldl_max
  right
  apply List.mem_of_getElem? (i := e)
  simp [needs, List.getElem?_zipWith, ha, hb]

/-- Row `e` of a contour reaches as far as `r` on both sides. -/
def Covers (rows : List Row) (e : ℕ) (r : Row) : Prop :=
  ∃ r', rows[e]? = some r' ∧ r'.left ≤ r.left ∧ r.right ≤ r'.right

theorem Covers.mergeRows_left (h : Covers as e r) : Covers (mergeRows as bs) e r := by
  induction as generalizing bs e with
  | nil =>
      obtain ⟨r', hr', -⟩ := h
      simp at hr'
  | cons x as ih =>
      cases bs with
      | nil => exact h
      | cons y bs =>
          cases e with
          | succ e => exact ih h
          | zero =>
              obtain ⟨r', hr', hleft, hright⟩ := h
              obtain rfl : x = r' := Option.some.inj hr'
              refine ⟨_, rfl, ?_, ?_⟩
              · dsimp only
                split_ifs <;> linarith
              · dsimp only
                split_ifs <;> linarith

theorem Covers.mergeRows_right (h : Covers bs e r) : Covers (mergeRows as bs) e r := by
  induction bs generalizing as e with
  | nil =>
      obtain ⟨r', hr', -⟩ := h
      simp at hr'
  | cons y bs ih =>
      cases as with
      | nil => exact h
      | cons x as =>
          cases e with
          | succ e => exact ih h
          | zero =>
              obtain ⟨r', hr', hleft, hright⟩ := h
              obtain rfl : y = r' := Option.some.inj hr'
              refine ⟨_, rfl, ?_, ?_⟩
              · dsimp only
                split_ifs <;> linarith
              · dsimp only
                split_ifs <;> linarith

/-- The merged contours reach as far as each of the subtrees at its place. -/
theorem mergeContours_covers {offsets : List ℚ} {s : Sub Id × ℚ} (hs : s ∈ subs.zip offsets)
    (hr : s.1.contour.rows[e]? = some r) :
    Covers (mergeContours subs offsets) e (r.shift s.2) := by
  have hkeep : ∀ (l : List (Sub Id × ℚ)) rows, Covers rows e (r.shift s.2) →
      Covers (l.foldl (fun rows t => mergeRows rows (t.1.contour.rows.map (Row.shift t.2))) rows)
        e (r.shift s.2) := by
    intro l
    induction l with
    | nil => exact fun rows h => h
    | cons t l ih => exact fun rows h => ih _ h.mergeRows_left
  obtain ⟨l₁, l₂, heq⟩ := List.append_of_mem hs
  rw [mergeContours, heq, List.foldl_append, List.foldl_cons]
  apply hkeep
  apply Covers.mergeRows_right
  exact ⟨r.shift s.2, by simp [hr], le_rfl, le_rfl⟩

end Contours

/-! ## The boxes of a forest -/

section Boxes

variable {sizeOf : Id → Size} {next : Id → List Id} {ts children rest : Trees Id}
  {pos : List ℚ} {cx o : ℚ} {d : ℕ} {a : Id} {p q : Placed Id}

/-- The subtrees of a forest. -/
def laidOut (sizeOf : Id → Size) (opt : Options) : Trees Id → List (Sub Id)
  | .nil => []
  | .cons a children rest =>
      parentSub sizeOf opt a (laidOut sizeOf opt children) :: laidOut sizeOf opt rest

/-- The offsets of the children from their parent. -/
def offsetsOf (opt : Options) (subs : List (Sub Id)) : List ℚ :=
  if subs.isEmpty then [] else centred (placeSiblings subs opt)

theorem walk_parentSub (subs : List (Sub Id)) :
    walk (parentSub sizeOf opt a subs) cx d =
      ⟨a, cx, d⟩ :: walkAll subs (offsetsOf opt subs) cx (d + 1) :=
  rfl

theorem length_laidOut (ts : Trees Id) : (laidOut sizeOf opt ts).length = ts.roots.length := by
  induction ts with
  | nil => rfl
  | cons a children rest _ ih => simp [laidOut, Trees.roots, ih]

theorem length_offsetsOf : (offsetsOf opt subs).length = subs.length := by
  by_cases hne : subs = []
  · simp [offsetsOf, hne]
  · simp [offsetsOf, hne, centred, (placeSiblings_spec hne).1]

theorem packed_offsetsOf : Packed opt subs (offsetsOf opt subs) := by
  by_cases hne : subs = []
  · simp [offsetsOf, hne, Packed]
  · simpa [offsetsOf, hne, centred] using (packed_placeSiblings hne).map _

/-- The boxes are the nodes in the order of the walk, each at its depth. -/
theorem walkAll_levels (hlen : pos.length = ts.roots.length) :
    (walkAll (laidOut sizeOf opt ts) pos cx d).map (fun p => (p.id, p.depth)) = ts.levels d := by
  induction ts generalizing pos cx d with
  | nil => simp [laidOut, walkAll, Trees.levels]
  | cons a children rest ihc ihr =>
      cases pos with
      | nil => simp [Trees.roots] at hlen
      | cons o pos =>
          have hc := @ihc (offsetsOf opt (laidOut sizeOf opt children)) (cx + o) (d + 1)
            (by rw [length_offsetsOf, length_laidOut])
          have hr := @ihr pos cx d (by simpa [Trees.roots] using hlen)
          simp [laidOut, walkAll, walk_parentSub, Trees.levels, hc, hr]

/-- A box lies within the contours of its subtree. -/
def Fits (sizeOf : Id → Size) (s : Sub Id) (cx : ℚ) (d : ℕ) (p : Placed Id) : Prop :=
  ∃ e r, p.depth = d + e ∧ s.contour.rows[e]? = some r ∧
    cx + r.left ≤ p.cx - (sizeOf p.id).w / 2 ∧ p.cx + (sizeOf p.id).w / 2 ≤ cx + r.right

/-- What fits the subtrees of the children fits the parent's. -/
theorem parentSub_fits
    (h : ∀ p ∈ walkAll subs (offsetsOf opt subs) cx (d + 1),
      ∃ s ∈ subs.zip (offsetsOf opt subs), Fits sizeOf s.1 (cx + s.2) (d + 1) p)
    (hp : p ∈ walk (parentSub sizeOf opt a subs) cx d) :
    Fits sizeOf (parentSub sizeOf opt a subs) cx d p := by
  rw [walk_parentSub] at hp
  rcases List.mem_cons.mp hp with rfl | hp
  · refine ⟨0, _, rfl, rfl, ?_, ?_⟩
    · simp only [parentSub]
      linarith
    · simp only [parentSub]
      exact le_rfl
  · obtain ⟨s, hs, e, r, hdepth, hr, hleft, hright⟩ := h p hp
    obtain ⟨r', hr', hleft', hright'⟩ := mergeContours_covers hs hr
    refine ⟨e + 1, r', by omega, hr', ?_, ?_⟩
    · simp only [Row.shift] at hleft'
      linarith
    · simp only [Row.shift] at hright'
      linarith

theorem walkAll_fits (hp : p ∈ walkAll (laidOut sizeOf opt ts) pos cx d) :
    ∃ s ∈ (laidOut sizeOf opt ts).zip pos, Fits sizeOf s.1 (cx + s.2) d p := by
  induction ts generalizing pos cx d p with
  | nil => simp [laidOut, walkAll] at hp
  | cons a children rest ihc ihr =>
      cases pos with
      | nil => simp [laidOut, walkAll] at hp
      | cons o pos =>
          rw [laidOut, walkAll] at hp
          rcases List.mem_append.mp hp with hp | hp
          · have hfits := parentSub_fits (fun p hp => ihc hp) hp
            exact ⟨_, List.mem_cons_self, hfits⟩
          · obtain ⟨s, hs, hfits⟩ := ihr hp
            exact ⟨s, List.mem_cons_of_mem _ hs, hfits⟩

theorem mem_levels (hlen : pos.length = ts.roots.length)
    (hp : p ∈ walkAll (laidOut sizeOf opt ts) pos cx d) : (p.id, p.depth) ∈ ts.levels d := by
  rw [← @walkAll_levels Id opt sizeOf ts pos cx d hlen]
  exact List.mem_map_of_mem hp

theorem mem_labels (hlen : pos.length = ts.roots.length)
    (hp : p ∈ walkAll (laidOut sizeOf opt ts) pos cx d) : p.id ∈ ts.labels := by
  rw [← Trees.map_fst_levels d ts]
  exact List.mem_map_of_mem (mem_levels hlen hp)

/-! ## Boxes of one depth -/

/-- The room between two boxes. -/
def room (sizeOf : Id → Size) (p q : Placed Id) : ℚ :=
  (q.cx - (sizeOf q.id).w / 2) - (p.cx + (sizeOf p.id).w / 2)

/-- Two boxes of one depth are in their order, and as far apart as siblings or others have to be. -/
def Spaced (sizeOf : Id → Size) (next : Id → List Id) (opt : Options) (ts : Trees Id)
    (p q : Placed Id) : Prop :=
  p.depth = q.depth →
    (ts.Siblings next p.id q.id → opt.siblingGap ≤ room sizeOf p q) ∧
      (¬ ts.Siblings next p.id q.id → opt.subtreeGap ≤ room sizeOf p q)

/-- In the row of their tops two subtrees are `siblingGap` apart, below it `subtreeGap`. -/
theorem room_of_fits {s t : Sub Id} {cs ct : ℚ}
    (hsep : separation s.contour t.contour opt ≤ ct - cs) (hp : Fits sizeOf s cs d p)
    (hq : Fits sizeOf t ct d q) (hdepth : p.depth = q.depth) :
    (p.depth = d → opt.siblingGap ≤ room sizeOf p q) ∧
      (p.depth ≠ d → opt.subtreeGap ≤ room sizeOf p q) := by
  obtain ⟨e, r, hpe, hr, -, hright⟩ := hp
  obtain ⟨e', r', hqe, hr', hleft, -⟩ := hq
  obtain rfl : e = e' := by omega
  unfold room
  cases e with
  | zero =>
      obtain rfl : s.contour.top = r := Option.some.inj hr
      obtain rfl : t.contour.top = r' := Option.some.inj hr'
      refine ⟨fun _ => ?_, fun hne => absurd hpe hne⟩
      linarith [@top_le_separation opt s.contour t.contour]
  | succ e =>
      refine ⟨fun heq => by omega, fun _ => ?_⟩
      linarith [@lower_le_separation opt s.contour t.contour r r' e hr hr']

theorem walkAll_spaced (hspans : ts.Spans next) (hnodup : ts.labels.Nodup)
    (hlen : pos.length = ts.roots.length) (hpacked : Packed opt (laidOut sizeOf opt ts) pos) :
    (walkAll (laidOut sizeOf opt ts) pos cx d).Pairwise (Spaced sizeOf next opt ts) := by
  induction ts generalizing pos cx d with
  | nil => simp [laidOut, walkAll]
  | cons a children rest ihc ihr =>
      cases pos with
      | nil => simp [laidOut, walkAll]
      | cons o pos =>
          obtain ⟨hfirst, hothers⟩ := List.pairwise_cons.mp hpacked
          have hlenc : (offsetsOf opt (laidOut sizeOf opt children)).length =
              children.roots.length := by
            rw [length_offsetsOf, length_laidOut]
          have hlenr : pos.length = rest.roots.length := by simpa [Trees.roots] using hlen
          obtain ⟨hnodupc, hnodupr⟩ := Trees.nodup_cons hnodup
          -- Below the first root is nothing of its depth.
          have hbelow : ∀ p ∈ walkAll (laidOut sizeOf opt children)
              (offsetsOf opt (laidOut sizeOf opt children)) (cx + o) (d + 1),
              p.id ∈ children.labels ∧ p.depth ≠ d := by
            intro p hp
            have hle := Trees.le_of_mem_levels (mem_levels hlenc hp)
            exact ⟨mem_labels hlenc hp, by omega⟩
          rw [laidOut, walkAll, List.pairwise_append]
          refine ⟨?_, ?_, ?_⟩
          · rw [walk_parentSub, List.pairwise_cons]
            refine ⟨fun q hq hdepth => absurd hdepth.symm (hbelow q hq).2, ?_⟩
            refine List.Pairwise.imp_of_mem ?_ (ihc hspans.2.1 hnodupc hlenc packed_offsetsOf)
            intro p q hp hq hspaced
            unfold Spaced
            rwa [Trees.siblings_children hspans hnodup (hbelow p hp).1]
          · refine List.Pairwise.imp_of_mem ?_ (ihr hspans.2.2 hnodupr hlenr hothers)
            intro p q hp hq hspaced
            unfold Spaced
            rwa [Trees.siblings_rest hspans hnodup (mem_labels hlenr hp) (mem_labels hlenr hq)]
          · intro p hp q hq hdepth
            have hfits := parentSub_fits (fun p hp => walkAll_fits hp) hp
            obtain ⟨t, ht, hfitq⟩ := walkAll_fits hq
            have hsep := hfirst t ht
            have hroom := room_of_fits (by linarith) hfits hfitq hdepth
            have hqrest := mem_labels hlenr hq
            rw [walk_parentSub] at hp
            rcases List.mem_cons.mp hp with rfl | hp
            · have hroot : q.id ∈ rest.roots := by
                have hlevel := mem_levels hlenr hq
                rw [← hdepth] at hlevel
                exact Trees.mem_roots_of_mem_levels hlevel
              have hsib := (Trees.siblings_across hspans hnodup List.mem_cons_self hqrest).mpr
                ⟨rfl, hroot⟩
              exact ⟨fun _ => hroom.1 rfl, fun hnot => absurd hsib hnot⟩
            · obtain ⟨hpid, hpdepth⟩ := hbelow p hp
              refine ⟨fun hsib => ?_, fun _ => hroom.2 hpdepth⟩
              obtain ⟨rfl, -⟩ := (Trees.siblings_across hspans hnodup
                (List.mem_cons_of_mem _ hpid) hqrest).mp hsib
              exact absurd hpid (Trees.disjoint_cons hnodup).1

/-! ## Parents over their children -/

theorem mem_walkAll_root {k : ℕ} {b : Id} (hb : ts.roots[k]? = some b) (ho : pos[k]? = some o) :
    ⟨b, cx + o, d⟩ ∈ walkAll (laidOut sizeOf opt ts) pos cx d := by
  induction ts generalizing pos k with
  | nil => simp [Trees.roots] at hb
  | cons a children rest _ ih =>
      cases pos with
      | nil => simp at ho
      | cons o' pos =>
          rw [laidOut, walkAll, walk_parentSub]
          cases k with
          | zero =>
              obtain rfl : a = b := Option.some.inj hb
              obtain rfl : o' = o := Option.some.inj ho
              exact List.mem_cons_self
          | succ k => exact List.mem_append_right _ (ih hb ho)

/-- A node with children is halfway between the first and the last. -/
def Centred (next : Id → List Id) (placed : List (Placed Id)) (p : Placed Id) : Prop :=
  next p.id ≠ [] → ∃ first ∈ placed, ∃ last ∈ placed,
    (next p.id).head? = some first.id ∧ (next p.id).getLast? = some last.id ∧
      (first.cx + last.cx) / 2 = p.cx

theorem Centred.mono {l l' : List (Placed Id)} (h : Centred next l p) (hsub : l ⊆ l') :
    Centred next l' p := by
  intro hne
  obtain ⟨first, hfirst, last, hlast, hends⟩ := h hne
  exact ⟨first, hsub hfirst, last, hsub hlast, hends⟩

/-- The first and the last offset are opposite. -/
theorem offsetsOf_ends (hne : subs ≠ []) :
    ∃ o, (offsetsOf opt subs)[0]? = some (-o) ∧
      (offsetsOf opt subs)[subs.length - 1]? = some o := by
  have hlen := (@placeSiblings_spec Id subs opt hne).1
  have hpos : 0 < subs.length := List.length_pos_iff.mpr hne
  refine ⟨((placeSiblings subs opt).getD (subs.length - 1) 0 -
    (placeSiblings subs opt).getD 0 0) / 2, ?_, ?_⟩
  · simp [offsetsOf, hne, centred, hlen, hpos]
    ring
  · simp [offsetsOf, hne, centred, hlen, hpos]
    ring

/-- A parent is halfway between the first and the last of its children. -/
theorem parent_centred (hnext : next a = children.roots) :
    Centred next (walkAll (laidOut sizeOf opt children)
      (offsetsOf opt (laidOut sizeOf opt children)) cx (d + 1)) ⟨a, cx, d⟩ := by
  intro hne
  rw [hnext] at hne ⊢
  have hlen := @length_laidOut Id opt sizeOf children
  have hpos : 0 < children.roots.length := List.length_pos_iff.mpr hne
  obtain ⟨o, hfirst, hlast⟩ := @offsetsOf_ends Id (laidOut sizeOf opt children) opt
    (List.ne_nil_of_length_pos (hlen ▸ hpos))
  rw [hlen] at hlast
  have hheadroot := List.getElem?_eq_getElem hpos
  have hlastroot := List.getElem?_eq_getElem (Nat.sub_lt hpos Nat.one_pos)
  refine ⟨_, mem_walkAll_root hheadroot hfirst, _, mem_walkAll_root hlastroot hlast, ?_, ?_, ?_⟩
  · rw [List.head?_eq_getElem?, hheadroot]
  · rw [List.getLast?_eq_getElem?, hlastroot]
  · dsimp only
    ring

theorem walkAll_centred (hspans : ts.Spans next)
    (hp : p ∈ walkAll (laidOut sizeOf opt ts) pos cx d) :
    Centred next (walkAll (laidOut sizeOf opt ts) pos cx d) p := by
  induction ts generalizing pos cx d with
  | nil => simp [laidOut, walkAll] at hp
  | cons a children rest ihc ihr =>
      cases pos with
      | nil => simp [laidOut, walkAll] at hp
      | cons o pos =>
          rw [laidOut, walkAll, walk_parentSub] at hp ⊢
          rcases List.mem_append.mp hp with hp | hp
          · apply Centred.mono _ (List.subset_append_left _ _)
            rcases List.mem_cons.mp hp with rfl | hp
            · exact (parent_centred hspans.1).mono (List.subset_cons_self _ _)
            · exact (ihc hspans.2.1 hp).mono (List.subset_cons_self _ _)
          · exact (ihr hspans.2.2 hp).mono (List.subset_append_right _ _)

/-! ## All boxes -/

theorem rootPos_spec :
    (if subs.isEmpty then [] else placeSiblings subs opt).length = subs.length ∧
      Packed opt subs (if subs.isEmpty then [] else placeSiblings subs opt) := by
  by_cases hne : subs = []
  · simp [hne, Packed]
  · simpa [hne] using ⟨(placeSiblings_spec hne).1, packed_placeSiblings hne⟩

/-- The boxes of a forest from the first root on. -/
def placedOf (sizeOf : Id → Size) (opt : Options) (ts : Trees Id) : List (Placed Id) :=
  let subs := laidOut sizeOf opt ts
  walkAll subs (if subs.isEmpty then [] else placeSiblings subs opt) 0 0

theorem placedOf_levels :
    (placedOf sizeOf opt ts).map (fun p => (p.id, p.depth)) = ts.levels 0 :=
  walkAll_levels (by rw [rootPos_spec.1, length_laidOut])

theorem placedOf_spaced (hspans : ts.Spans next) (hnodup : ts.labels.Nodup) :
    (placedOf sizeOf opt ts).Pairwise (Spaced sizeOf next opt ts) :=
  walkAll_spaced hspans hnodup (by rw [rootPos_spec.1, length_laidOut]) rootPos_spec.2

/-- The left edge of the leftmost box. -/
def leftmost (sizeOf : Id → Size) (placed : List (Placed Id)) : ℚ :=
  (placed.map fun p => p.cx - (sizeOf p.id).w / 2).min?.getD 0

/-- Moving all boxes by one and the same distance keeps the rooms between them. -/
theorem gapBetween_nodeOf (rowTop : List ℚ) (minX : ℚ) (p q : Placed Id) :
    gapBetween (nodeOf sizeOf rowTop minX p) (nodeOf sizeOf rowTop minX q) = room sizeOf p q := by
  simp only [gapBetween, nodeOf, room]
  ring

theorem map_id_nodeOf (rowTop : List ℚ) (minX : ℚ) :
    ((placedOf sizeOf opt ts).map (nodeOf sizeOf rowTop minX)).map Node.id = ts.labels := by
  rw [← Trees.map_fst_levels 0 ts, ← @placedOf_levels Id opt sizeOf ts, List.map_map, List.map_map]
  rfl

/-- The least of the left edges is one of them, and below none. -/
theorem min?_getD_spec {l : List ℚ} (hne : l ≠ []) : l.min?.getD 0 ∈ l ∧ ∀ x ∈ l, l.min?.getD 0 ≤ x := by
  cases hmin : l.min? with
  | none => exact absurd (List.min?_eq_none_iff.mp hmin) hne
  | some m => exact List.min?_eq_some_iff.mp hmin

theorem leftmost_le {placed : List (Placed Id)} {p : Placed Id} (hp : p ∈ placed) :
    leftmost sizeOf placed ≤ p.cx - (sizeOf p.id).w / 2 := by
  have hmem := List.mem_map_of_mem (f := fun p => p.cx - (sizeOf p.id).w / 2) hp
  exact (min?_getD_spec (List.ne_nil_of_mem hmem)).2 _ hmem

theorem exists_leftmost {placed : List (Placed Id)} (hne : placed ≠ []) :
    ∃ p ∈ placed, p.cx - (sizeOf p.id).w / 2 = leftmost sizeOf placed :=
  List.mem_map.mp (min?_getD_spec (mt List.map_eq_nil_iff.mp hne)).1

/-! ## The layout -/

/-- What a layout of a forest owes to its reader: every node once and at its depth, boxes of one
depth in their order and apart, parents over their children, and the leftmost edge at 0. -/
structure Tidy (childrenOf : Id → List Id) (sizeOf : Id → Size) (opt : Options) (ts : Trees Id)
    (layout : Layout Id) : Prop where
  levels : layout.nodes.map (fun n => (n.id, n.depth)) = ts.levels 0
  once : (layout.nodes.map Node.id).Nodup
  boxes : ∀ n ∈ layout.nodes, n.w = (sizeOf n.id).w ∧ n.h = (sizeOf n.id).h
  apart : layout.nodes.Pairwise fun a b => a.depth = b.depth →
    (ts.Siblings childrenOf a.id b.id → opt.siblingGap ≤ gapBetween a b) ∧
      (¬ ts.Siblings childrenOf a.id b.id → opt.subtreeGap ≤ gapBetween a b)
  centred : ∀ n ∈ layout.nodes, childrenOf n.id ≠ [] →
    ∃ first ∈ layout.nodes, ∃ last ∈ layout.nodes,
      (childrenOf n.id).head? = some first.id ∧ (childrenOf n.id).getLast? = some last.id ∧
        (first.cx + last.cx) / 2 = n.cx
  inside : ∀ n ∈ layout.nodes, 0 ≤ n.cx - n.w / 2 ∧ 0 ≤ n.x
  edge : layout.nodes ≠ [] → ∃ n ∈ layout.nodes, n.cx - n.w / 2 = 0 ∧ n.x = 0

theorem tidy_nodeOf (hspans : ts.Spans childrenOf) (hnodup : ts.labels.Nodup) {rowTop : List ℚ}
    {layout : Layout Id}
    (hnodes : layout.nodes = (placedOf sizeOf opt ts).map
      (nodeOf sizeOf rowTop (leftmost sizeOf (placedOf sizeOf opt ts)))) :
    Tidy childrenOf sizeOf opt ts layout where
  levels := by
    rw [hnodes, List.map_map, ← @placedOf_levels Id opt sizeOf ts]
    rfl
  once := by
    rwa [hnodes, map_id_nodeOf]
  boxes := by
    rw [hnodes]
    intro n hn
    obtain ⟨p, -, rfl⟩ := List.mem_map.mp hn
    exact ⟨rfl, rfl⟩
  apart := by
    rw [hnodes, List.pairwise_map]
    refine (placedOf_spaced hspans hnodup).imp fun {p q} h => ?_
    rw [gapBetween_nodeOf]
    exact h
  centred := by
    rw [hnodes]
    intro n hn hne
    obtain ⟨p, hp, rfl⟩ := List.mem_map.mp hn
    obtain ⟨first, hfirst, last, hlast, hhead, hend, hmid⟩ := walkAll_centred hspans hp hne
    refine ⟨_, List.mem_map_of_mem hfirst, _, List.mem_map_of_mem hlast, hhead, hend, ?_⟩
    simp only [nodeOf, ← hmid]
    ring
  inside := by
    rw [hnodes]
    intro n hn
    obtain ⟨p, hp, rfl⟩ := List.mem_map.mp hn
    have hle := @leftmost_le Id sizeOf _ _ hp
    have hedge : 0 ≤ (nodeOf sizeOf rowTop (leftmost sizeOf (placedOf sizeOf opt ts)) p).cx -
        (sizeOf p.id).w / 2 := by
      simp only [nodeOf]
      linarith
    exact ⟨hedge, Int.floor_nonneg.mpr (by linarith)⟩
  edge := by
    rw [hnodes]
    intro hne
    obtain ⟨p, hp, hedge⟩ := @exists_leftmost Id sizeOf _ (mt (congrArg _) hne)
    refine ⟨_, List.mem_map_of_mem hp, ?_, ?_⟩
    · simp only [nodeOf]
      linarith
    · have hzero : p.cx - leftmost sizeOf (placedOf sizeOf opt ts) - (sizeOf p.id).w / 2 = 0 := by
        linarith
      simp only [nodeOf, hzero, round]
      norm_num

end Boxes

/-! ## The nodes by their ids -/

section Nodes

variable [DecidableEq Id] {nodes : List (Node Id)} {n : Node Id} {childrenOf : Id → List Id}
  {sizeOf : Id → Size} {ts : Trees Id}

theorem lookup_of_mem (hnodup : (nodes.map Node.id).Nodup) (hn : n ∈ nodes) :
    lookup nodes n.id = some n := by
  cases hfind : lookup nodes n.id with
  | none =>
      have hnone := List.find?_eq_none.mp hfind n (List.mem_reverse.mpr hn)
      simp at hnone
  | some m =>
      have hm : m ∈ nodes := List.mem_reverse.mp (List.mem_of_find?_eq_some hfind)
      have hid : m.id = n.id := by simpa using List.find?_some hfind
      rw [List.inj_on_of_nodup_map hnodup hm hn hid]

theorem getAll_lookup {ids : List Id} (hnodup : (nodes.map Node.id).Nodup)
    (h : ∀ id ∈ ids, id ∈ nodes.map Node.id) : ∃ kids, getAll (lookup nodes) ids = .ok kids := by
  refine Except.exists_mapM_eq_ok fun id hid => ?_
  obtain ⟨n, hn, rfl⟩ := List.mem_map.mp (h id hid)
  exact ⟨n, by rw [lookup_of_mem hnodup hn]⟩

/-- The connectors only name nodes that are there. -/
theorem connectors_ok {roots : List Id} {topPad : ℚ} {rowTop : List ℚ}
    (hnodup : (nodes.map Node.id).Nodup) (hroots : ∀ id ∈ roots, id ∈ nodes.map Node.id)
    (hkids : ∀ n ∈ nodes, ∀ id ∈ childrenOf n.id, id ∈ nodes.map Node.id) :
    ∃ paths, connectors roots childrenOf opt topPad rowTop nodes = .ok paths := by
  obtain ⟨top, htop⟩ := getAll_lookup hnodup hroots
  have hpaths : ∃ paths, ((nodes.filter fun n => !(childrenOf n.id).isEmpty).mapM fun n => do
      let kids ← getAll (lookup nodes) (childrenOf n.id)
      pure (family (some (round n.cx, n.y + n.h)) (rowTop.getD (n.depth + 1) 0 - opt.stub) kids)) =
        Except.ok paths := by
    refine Except.exists_mapM_eq_ok fun n hn => ?_
    obtain ⟨kids, hkids⟩ := getAll_lookup hnodup (hkids n (List.mem_of_mem_filter hn))
    rw [hkids]
    exact ⟨_, rfl⟩
  obtain ⟨paths, hpaths⟩ := hpaths
  unfold connectors
  simp only [htop, hpaths]
  split_ifs
  · exact ⟨_, rfl⟩
  · exact ⟨_, rfl⟩

theorem arrange_ok {roots : List Id} {placed : List (Placed Id)}
    (hpaths : ∀ topPad rowTop minX, ∃ paths, connectors roots childrenOf opt topPad rowTop
      (placed.map (nodeOf sizeOf rowTop minX)) = .ok paths) :
    ∃ layout rowTop, arrange roots childrenOf sizeOf opt placed = .ok layout ∧
      layout.byId = lookup layout.nodes ∧
      layout.nodes = placed.map (nodeOf sizeOf rowTop (leftmost sizeOf placed)) := by
  let topPad := if 1 < roots.length then opt.stub + 2 else 0
  let rowTop := rowTops opt topPad (placed.foldl (raiseRow sizeOf) [])
  obtain ⟨paths, hpaths⟩ := hpaths topPad rowTop (leftmost sizeOf placed)
  exact ⟨_, rowTop, Except.bind_eq_ok.mpr ⟨paths, hpaths, rfl⟩, rfl, rfl⟩

/-- The boxes of a forest make a layout. -/
theorem arrange_placedOf (hspans : ts.Spans childrenOf) (hnodup : ts.labels.Nodup) :
    ∃ layout rowTop, arrange ts.roots childrenOf sizeOf opt (placedOf sizeOf opt ts) = .ok layout ∧
      layout.byId = lookup layout.nodes ∧ layout.nodes = (placedOf sizeOf opt ts).map
        (nodeOf sizeOf rowTop (leftmost sizeOf (placedOf sizeOf opt ts))) := by
  refine arrange_ok fun topPad rowTop minX => ?_
  apply connectors_ok
  · rwa [map_id_nodeOf]
  · intro id hid
    rw [map_id_nodeOf]
    exact Trees.roots_subset ts hid
  · intro n hn id hid
    rw [map_id_nodeOf]
    apply hspans.next_subset _ hid
    rw [← @map_id_nodeOf Id opt sizeOf ts rowTop minX]
    exact List.mem_map_of_mem hn

end Nodes

/-! ## The rows of the check -/

section Rows

variable [ToString Id] {minGap : ℚ} {row : List (Node Id)}

theorem forall_consecutivePairs {α : Type} {R : α → α → Prop} {l : List α} (h : l.Pairwise R) :
    ∀ p ∈ l.consecutivePairs, R p.1 p.2 := by
  induction h with
  | nil => simp
  | @cons a l ha _ ih =>
      cases l with
      | nil => simp [List.consecutivePairs]
      | cons b l =>
          intro p hp
          rcases List.mem_cons.mp hp with rfl | hp
          · exact ha b List.mem_cons_self
          · exact ih p hp

/-- A row that is in its order and apart is without a problem. -/
theorem rowProblems_eq_nil (d : ℕ)
    (hrow : row.Pairwise fun a b => minGap ≤ gapBetween a b ∧ a.cx ≤ b.cx) :
    rowProblems minGap d row = [] := by
  have hsorted : row.mergeSort (fun a b => a.cx ≤ b.cx) = row :=
    List.mergeSort_of_pairwise (hrow.imp fun h => decide_eq_true h.2)
  unfold rowProblems
  simp only [hsorted, List.map_eq_nil_iff, List.filter_eq_nil_iff, decide_eq_true_eq, not_lt]
  intro p hp
  linarith [(forall_consecutivePairs hrow p hp).1]

end Rows

/-! ## The recursion -/

section Recursion

variable [DecidableEq Id] [ToString Id] {childrenOf : Id → List Id} {sizeOf : Id → Size}
  {ts : Trees Id} {depth : ℕ} {seen seen' : List Id} {a : Id}

theorem layoutSubtree_run (hseen : a ∉ seen)
    (hkids : ((childrenOf a).mapM (layoutSubtree childrenOf sizeOf opt depth)).run (a :: seen) =
      .ok (subs, seen')) :
    (layoutSubtree childrenOf sizeOf opt (depth + 1) a).run seen =
      .ok (parentSub sizeOf opt a subs, seen') := by
  simp [layoutSubtree, hseen, hkids]

/-- On a forest that is not seen yet the recursion ends, with all its nodes seen once. -/
theorem mapM_layoutSubtree (hspans : ts.Spans childrenOf) (hnodup : ts.labels.Nodup)
    (hseen : ∀ b ∈ ts.labels, b ∉ seen) (hdepth : ts.height ≤ depth) :
    (ts.roots.mapM (layoutSubtree childrenOf sizeOf opt depth)).run seen =
      .ok (laidOut sizeOf opt ts, ts.labels.reverse ++ seen) := by
  induction ts generalizing depth seen with
  | nil => rfl
  | cons a children rest ihc ihr =>
      obtain ⟨hac, har, hdisjoint⟩ := Trees.disjoint_cons hnodup
      obtain ⟨hnodupc, hnodupr⟩ := Trees.nodup_cons hnodup
      obtain ⟨depth, rfl⟩ : ∃ k, depth = k + 1 := ⟨depth - 1, by
        simp only [Trees.height] at hdepth
        omega⟩
      simp only [Trees.height, max_le_iff, Nat.add_le_add_iff_right] at hdepth
      have hseenc : ∀ b ∈ children.labels, b ∉ a :: seen := by
        intro b hb
        have hb' := hseen b (List.mem_cons_of_mem _ (List.mem_append_left _ hb))
        rw [List.mem_cons, not_or]
        exact ⟨fun heq => hac (heq ▸ hb), hb'⟩
      have hseenr : ∀ b ∈ rest.labels, b ∉ children.labels.reverse ++ a :: seen := by
        intro b hb
        have hb' := hseen b (List.mem_cons_of_mem _ (List.mem_append_right _ hb))
        rw [List.mem_append, List.mem_reverse, List.mem_cons, not_or, not_or]
        exact ⟨fun hbc => hdisjoint hbc hb, fun heq => har (heq ▸ hb), hb'⟩
      have hkids := ihc hspans.2.1 hnodupc hseenc hdepth.1
      rw [← hspans.1] at hkids
      have hfirst := layoutSubtree_run (hseen a List.mem_cons_self) hkids
      have hrest := ihr hspans.2.2 hnodupr hseenr hdepth.2
      have hall := Except.run_mapM_cons hfirst hrest
      simpa [Trees.roots, Trees.labels, laidOut] using hall

theorem layoutTree_eq (hspans : ts.Spans childrenOf) (hnodup : ts.labels.Nodup)
    (hdepth : ts.height ≤ depth) :
    layoutTree depth ts.roots childrenOf sizeOf opt =
      arrange ts.roots childrenOf sizeOf opt (placedOf sizeOf opt ts) := by
  have hrun := @mapM_layoutSubtree Id opt _ _ childrenOf sizeOf ts depth [] hspans hnodup
    (by simp) hdepth
  rw [layoutTree, hrun]
  rfl

/-! ## The check -/

variable {layout : Layout Id}

theorem centreProblems_eq_nil {n : Node Id} (hbyId : layout.byId = lookup layout.nodes)
    (htidy : Tidy childrenOf sizeOf opt ts layout) (hn : n ∈ layout.nodes) :
    centreProblems n ((childrenOf n.id).map layout.byId) = .ok [] := by
  by_cases hne : childrenOf n.id = []
  · simp [hne, centreProblems]
  · obtain ⟨first, hfirst, last, hlast, hhead, hend, hmid⟩ := htidy.centred n hn hne
    rw [hbyId, centreProblems, List.head?_map, List.getLast?_map, hhead, hend, Option.map_some,
      Option.map_some, lookup_of_mem htidy.once hfirst, lookup_of_mem htidy.once hlast]
    simp only [hmid, sub_self, abs_zero]
    norm_num

theorem checkTreeLayout_eq_nil (hbyId : layout.byId = lookup layout.nodes)
    (htidy : Tidy childrenOf sizeOf opt ts layout) (hsib : 0 ≤ opt.siblingGap)
    (hsub : 0 ≤ opt.subtreeGap) (hsize : ∀ n ∈ layout.nodes, 0 < n.w) :
    checkTreeLayout layout childrenOf (min opt.siblingGap opt.subtreeGap) = .ok [] := by
  have hrows : ∀ d, rowProblems (min opt.siblingGap opt.subtreeGap) d
      (layout.nodes.filter fun n => n.depth = d) = [] := by
    intro d
    apply rowProblems_eq_nil
    refine List.Pairwise.imp_of_mem ?_ (htidy.apart.filter _)
    intro a b ha hb hapart
    obtain ⟨ha, hda⟩ := List.mem_filter.mp ha
    obtain ⟨hb, hdb⟩ := List.mem_filter.mp hb
    obtain ⟨hkin, hnot⟩ := hapart (by simp_all)
    have hgap : min opt.siblingGap opt.subtreeGap ≤ gapBetween a b := by
      by_cases hs : ts.Siblings childrenOf a.id b.id
      · exact (min_le_left _ _).trans (hkin hs)
      · exact (min_le_right _ _).trans (hnot hs)
    have hpos : 0 ≤ gapBetween a b := (le_min hsib hsub).trans hgap
    refine ⟨hgap, ?_⟩
    unfold gapBetween at hpos
    linarith [hsize a ha, hsize b hb]
  have hcentres : layout.nodes.mapM (fun n =>
      centreProblems n ((childrenOf n.id).map layout.byId)) =
        .ok (layout.nodes.map fun _ => []) :=
    Except.mapM_eq_ok fun n hn => centreProblems_eq_nil hbyId htidy hn
  rw [checkTreeLayout, hcentres]
  simp [hrows]

/-! ## Every forest has a tidy layout -/

/-- Every forest with boxes of positive sizes is laid out, at every depth of the recursion that it
needs, each node once and with the rooms, the centres and the left edge as they should be, and the
self-check has nothing to say. -/
theorem layout_tidy {childrenOf : Id → List Id} {sizeOf : Id → Size} {opt : Options} {ts : Trees Id}
    (hspans : ts.Spans childrenOf) (hnodup : ts.labels.Nodup)
    (hsize : ∀ id ∈ ts.labels, 0 < (sizeOf id).w ∧ 0 < (sizeOf id).h)
    (hsib : 0 ≤ opt.siblingGap) (hsub : 0 ≤ opt.subtreeGap) :
    ∃ layout, (∀ depth, ts.height ≤ depth →
        layoutTree depth ts.roots childrenOf sizeOf opt = .ok layout) ∧
      Tidy childrenOf sizeOf opt ts layout ∧
      checkTreeLayout layout childrenOf (min opt.siblingGap opt.subtreeGap) = .ok [] := by
  obtain ⟨layout, rowTop, harrange, hbyId, hnodes⟩ :=
    @arrange_placedOf Id opt _ childrenOf sizeOf ts hspans hnodup
  have htidy := tidy_nodeOf hspans hnodup hnodes
  refine ⟨layout, fun depth hdepth => ?_, htidy, ?_⟩
  · rw [layoutTree_eq hspans hnodup hdepth, harrange]
  · refine checkTreeLayout_eq_nil hbyId htidy hsib hsub fun n hn => ?_
    rw [(htidy.boxes n hn).1]
    apply (hsize n.id _).1
    rw [← @map_id_nodeOf Id opt sizeOf ts rowTop (leftmost sizeOf (placedOf sizeOf opt ts)),
      ← hnodes]
    exact List.mem_map_of_mem hn

end Recursion

/-- Two operations with their groups, one of them at a deeper level. -/
theorem layout_tidy_operations :
    let childrenOf : ℕ → List ℕ := fun id => if id = 0 then [1, 2] else if id = 2 then [3] else []
    let sizeOf : ℕ → Size := fun id => ⟨100 + id, 40⟩
    let ts : Trees ℕ :=
      .cons 0 (.cons 1 .nil (.cons 2 (.cons 3 .nil .nil) .nil)) (.cons 4 .nil .nil)
    ∃ layout, (∀ depth, ts.height ≤ depth →
        layoutTree depth ts.roots childrenOf sizeOf {} = .ok layout) ∧
      Tidy childrenOf sizeOf {} ts layout ∧ checkTreeLayout layout childrenOf (min 16 24) = .ok [] := by
  intro childrenOf sizeOf ts
  have hspans : ts.Spans childrenOf := by simp [ts, childrenOf, Trees.Spans, Trees.roots]
  have hsize : ∀ id ∈ ts.labels, 0 < (sizeOf id).w ∧ 0 < (sizeOf id).h := by
    intro id _
    exact ⟨by positivity, by norm_num [sizeOf]⟩
  exact layout_tidy hspans (by decide) hsize (by norm_num) (by norm_num)

end SpecterComs.TreeLayout
