import SpecterComs.Model.Portal.BrowserStore

/-! # Tabs follow the login

A refresh stores what it is answered, whatever has happened to the session since it was sent.
-/

namespace SpecterComs.BrowserStore

variable {Token User Id : Type*} [DecidableEq Id] [DecidableEq Token] {idOf : User → Id}
  {s t : State Token User} {turn : Turn Token User}

/-- The stored token is of the session that the last login began. -/
def State.clean (s : State Token User) : Prop :=
  ∀ o, s.storage.token = some o → o.session = s.session

omit [DecidableEq Id] [DecidableEq Token] in
theorem clean_clearLocal (s : State Token User) : s.clearLocal.clean := by
  intro o h
  cases h

omit [DecidableEq Id] [DecidableEq Token] in
theorem clean_store_iff {session : ℕ} {token : Token} {refreshToken : Option Token} :
    (s.store session token refreshToken).clean ↔ session = s.session := by
  constructor
  · exact fun h => h ⟨token, session⟩ rfl
  · intro h o ho
    rw [← Option.some.inj ho]
    exact h

/-- What `getToken` returns and what is stored is of the session that the last login began. -/
structure Follows (s : State Token User) (turn : Turn Token User) (t : State Token User) : Prop where
  returned : ∀ o, returned s turn = some o → o.session = s.session
  clean : t.clean

/-- An answer that brings a token comes while the session is still the one of the refresh token that
was redeemed for it. -/
def State.meets (s : State Token User) : Turn Token User → Prop
  | .answer tab (.response status (some _) _) => 200 ≤ status → status < 300 →
      ∀ redeemed, s.refreshing tab = some redeemed → redeemed.session = s.session
  | _ => True

theorem clean_onUnauthorized (hclean : s.clean) (tab : ℕ) (staleToken : Option Token) :
    (s.onUnauthorized tab staleToken).clean := by
  unfold State.onUnauthorized
  split
  · exact hclean
  · dsimp only
    split
    · exact hclean
    · split
      · exact clean_clearLocal s
      · exact hclean

omit [DecidableEq Token] in
theorem clean_setSession (token : Token) (refreshToken : Option Token) (user : User) :
    (s.setSession idOf token refreshToken user).clean := by
  intro o ho
  rw [← Option.some.inj ho]
  rfl

omit [DecidableEq Id] [DecidableEq Token] in
theorem clean_finish_iff (hclean : s.clean) {tab : ℕ} {redeemed : Owned Token}
    (hredeemed : s.refreshing tab = some redeemed) (a : Answer Token) :
    (s.finish redeemed a).clean ↔ s.meets (.answer tab a) := by
  cases a with
  | unreachable => exact iff_of_true hclean trivial
  | response status token refreshToken =>
      cases token with
      | none =>
          refine iff_of_true ?_ trivial
          unfold State.finish
          dsimp only
          split
          · exact clean_clearLocal s
          · exact hclean
      | some token =>
          unfold State.finish
          dsimp only
          split
          · rename_i hok
            rw [clean_store_iff]
            constructor
            · intro h _ _ redeemed' hredeemed'
              obtain rfl := Option.some.inj (hredeemed.symm.trans hredeemed')
              exact h
            · exact fun h => h hok.1 hok.2 redeemed hredeemed
          · rename_i hnot
            refine iff_of_true ?_ fun hlow hhigh => absurd ⟨hlow, hhigh⟩ hnot
            split
            · exact clean_clearLocal s
            · exact hclean

theorem step_clean (hclean : s.clean) (h : (browserStore idOf).step s turn = some t) :
    t.clean ↔ s.meets turn := by
  cases turn with
  | getToken tab =>
      obtain rfl := Option.some.inj h
      exact iff_of_true hclean trivial
  | onUnauthorized tab staleToken =>
      obtain rfl := Option.some.inj h
      exact iff_of_true (clean_onUnauthorized hclean tab staleToken) trivial
  | answer tab a =>
      obtain ⟨redeemed, hredeemed, rfl⟩ := Option.map_eq_some_iff.mp h
      exact clean_finish_iff hclean hredeemed a
  | setSession tab token refreshToken user =>
      obtain rfl := Option.some.inj h
      exact iff_of_true (clean_setSession token refreshToken user) trivial
  | setUser tab user =>
      obtain rfl := Option.some.inj h
      exact iff_of_true hclean trivial
  | clear tab =>
      obtain rfl := Option.some.inj h
      exact iff_of_true (clean_clearLocal s) trivial

omit [DecidableEq Id] [DecidableEq Token] in
theorem clean_start (token refreshToken : Option Token) (user : Option User) :
    (State.start token refreshToken user).clean := by
  intro o ho
  obtain ⟨token, -, rfl⟩ := Option.map_eq_some_iff.mp ho
  rfl

omit [DecidableEq Id] [DecidableEq Token] in
theorem returned_current (hclean : s.clean) {o : Owned Token} (h : returned s turn = some o) :
    o.session = s.session := by
  cases turn with
  | getToken tab => exact hclean o h
  | _ => cases h

/-- In exactly the runs where every answer that brings a token comes in the session of its refresh
token, what `getToken` returns follows the login. -/
theorem follows_iff (token refreshToken : Option Token) (user : Option User)
    (turns : List (Turn Token User)) :
    (∀ s turn t, (browserStore idOf).Passes (State.start token refreshToken user) turns s turn t →
        Follows s turn t) ↔
      ∀ s turn t, (browserStore idOf).Passes (State.start token refreshToken user) turns s turn t →
        s.meets turn := by
  have hstep : ∀ (s : State Token User) (turn : Turn Token User) (t : State Token User), s.clean →
      (browserStore idOf).step s turn = some t →
        (Follows s turn t ↔ s.meets turn) ∧ (s.meets turn → t.clean) := by
    intro s turn t hclean h
    have hiff := step_clean hclean h
    exact ⟨⟨fun hf => hiff.mp hf.clean,
      fun hm => ⟨fun o ho => returned_current hclean ho, hiff.mpr hm⟩⟩, hiff.mpr⟩
  exact StepSystem.passes_iff hstep (clean_start token refreshToken user) turns

end SpecterComs.BrowserStore
