import SpecterComs.Verification.Portal.BrowserStore
import SpecterComs.Verification.Portal.TauriStore

/-! # The portal's token follows the login

In the app a window keeps its token when somebody else logs in elsewhere, and neither store asks
whether the session has changed when an answer comes.
-/

namespace SpecterComs.Portal

open DesktopSession (CredentialFile)

variable {Token User Id : Type*} [DecidableEq Token] [DecidableEq Id]

/-- The token follows the login in exactly these runs. In the app, every answer that comes to be kept
brings a token of no login that is over for the window, and no window keeps a token of a login that it
hears to be over. In the browser, every refresh is answered in the session whose refresh token it has
redeemed. -/
theorem token_follows_login_iff (idOf : User → Id) :
    (∀ (jwtExpMs jwtExp : Token → Option ℤ) (file : CredentialFile Token User) (user : Option User)
      (turns : List (TauriStore.Turn Token User)),
      (∀ s turn t, (TauriStore.tauriStore jwtExpMs idOf jwtExp).Passes (.start file user) turns s turn
          t → TauriStore.Follows s turn t) ↔
        ∀ s turn t, (TauriStore.tauriStore jwtExpMs idOf jwtExp).Passes (.start file user) turns s
          turn t → s.meets jwtExpMs idOf turn) ∧
      ∀ (token refreshToken : Option Token) (user : Option User)
        (turns : List (BrowserStore.Turn Token User)),
        (∀ s turn t, (BrowserStore.browserStore idOf).Passes (.start token refreshToken user) turns s
            turn t → BrowserStore.Follows s turn t) ↔
          ∀ s turn t, (BrowserStore.browserStore idOf).Passes (.start token refreshToken user) turns s
            turn t → s.meets turn :=
  ⟨fun _ _ file user turns => TauriStore.follows_iff file user turns,
    fun token refreshToken user turns => BrowserStore.follows_iff token refreshToken user turns⟩

/-! ## Two logins and a late answer -/

/-- Nobody waits for the server or the disk. -/
def quickly : DesktopSession.Outside ℕ :=
  ⟨0, .unreachable "", .ok⟩

def farOff (_ : ℕ) : Option ℤ :=
  some 1000000

/-- Ada logs in and another window keeps her token; then Bob logs in, and that window hears of it. -/
def bobAfterAda : List (TauriStore.Turn ℕ String) :=
  [.call 0 0 (.setSession ⟨1, none, "ada"⟩) 0, .arrive 0, .rust 0 quickly, .rust 0 quickly, .reply 0,
    .deliver 1, .call 1 1 .getToken 0, .arrive 1, .rust 1 quickly, .reply 1,
    .call 2 0 (.setSession ⟨2, none, "bob"⟩) 0, .arrive 2, .rust 2 quickly, .rust 2 quickly,
    .deliver 1]

/-- Ada logs out while a refresh of her session is on its way. -/
def logoutWhileRefreshing : List (BrowserStore.Turn ℕ String) :=
  [.onUnauthorized 0 (some 1), .clear 0]

/-- The window that has heard of Bob's login returns Ada's token, and Ada's refreshed token is stored
after her logout. -/
theorem not_always_follows_login :
    (¬ ∀ (jwtExpMs jwtExp : ℕ → Option ℤ) (file : CredentialFile ℕ String) (user : Option String)
      (turns : List (TauriStore.Turn ℕ String)) (s t : TauriStore.State ℕ String)
      (turn : TauriStore.Turn ℕ String),
      (TauriStore.tauriStore jwtExpMs id jwtExp).Passes (.start file user) turns s turn t →
        TauriStore.Follows s turn t) ∧
      ¬ ∀ (token refreshToken : Option ℕ) (user : Option String)
        (turns : List (BrowserStore.Turn ℕ String)) (s t : BrowserStore.State ℕ String)
        (turn : BrowserStore.Turn ℕ String),
        (BrowserStore.browserStore id).Passes (.start token refreshToken user) turns s turn t →
          BrowserStore.Follows s turn t := by
  constructor
  · intro h
    have hruns : (((TauriStore.tauriStore farOff id farOff).exec (.start .absent none)
        bobAfterAda).any fun s =>
          TauriStore.returned s (.call 3 1 .getToken 0) = some (1, 2, 1) &&
            s.held.all (fun x => x.1 < 2 || x.2 ≠ 1) &&
              ((TauriStore.tauriStore farOff id farOff).step s (.call 3 1 .getToken 0)).isSome) =
        true := by
      decide +kernel
    obtain ⟨s, hs, hlast⟩ := (Option.any_eq_true _ _).mp hruns
    simp only [Bool.and_eq_true, decide_eq_true_eq] at hlast
    obtain ⟨⟨hreturned, hheld⟩, hstep⟩ := hlast
    have hrun := StepSystem.exec_eq_some_iff.mp hs
    obtain ⟨t, ht⟩ := Option.isSome_iff_exists.mp hstep
    have hfollows := h farOff farOff .absent none (bobAfterAda ++ [.call 3 1 .getToken 0]) s t
      (.call 3 1 .getToken 0) ⟨bobAfterAda, [], rfl, hrun, ht⟩
    rcases hfollows.returned 1 2 1 hreturned with ⟨e, he, hmem⟩ | hlogin
    · have hold := List.all_eq_true.mp hheld _ hmem
      rw [Bool.or_eq_true, decide_eq_true_eq, decide_eq_true_eq] at hold
      rcases hold with hlt | hne
      · exact absurd he (Nat.not_le.mpr hlt)
      · exact hne rfl
    · refine TauriStore.not_loggingIn ?_ hrun hlogin
      rintro turn hturn n login now rfl
      simp [bobAfterAda] at hturn
  · intro h
    have hruns : ((((BrowserStore.browserStore id).exec (.start (some 1) (some 2) (some "ada"))
        logoutWhileRefreshing).bind fun s => ((BrowserStore.browserStore id).step s
          (.answer 0 (.response 200 (some 3) (some 4))))).any fun t =>
            t.storage.token = some ⟨3, 0⟩ && t.session = 1) = true := by
      decide +kernel
    obtain ⟨t, ht, hlast⟩ := (Option.any_eq_true _ _).mp hruns
    obtain ⟨s, hs, hstep⟩ := Option.bind_eq_some_iff.mp ht
    rw [Bool.and_eq_true, decide_eq_true_eq, decide_eq_true_eq] at hlast
    have hfollows := h (some 1) (some 2) (some "ada")
      (logoutWhileRefreshing ++ [.answer 0 (.response 200 (some 3) (some 4))]) s t
      (.answer 0 (.response 200 (some 3) (some 4)))
      ⟨logoutWhileRefreshing, [], rfl, StepSystem.exec_eq_some_iff.mp hs, hstep⟩
    have hsession := hfollows.clean ⟨3, 0⟩ hlast.1
    rw [hlast.2] at hsession
    cases hsession

end SpecterComs.Portal
