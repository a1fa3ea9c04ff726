import SpecterComs.Verification.MlsStore.Drain

/-! # What the message cache still shows

A line that was cut short has no line feed, so the next line goes on with it. A key that cannot be
read is taken for none, and another is put in its place.
-/

namespace SpecterComs.CacheRuns

open MlsStore

variable {aead : Aead} {json : Json} {c c' : Cache json} {account channel : String}
  {record : json.Value} {line : List Char} {secret : Option Bytes}

/-! ## Calls -/

theorem appendLine_some {fates : AppendFates}
    (h : c.appendLine aead channel record fates = (some line, secret)) :
    validChannelId channel = true ∧ ∃ key, msgcacheKey fates.key c.secret = (some key, secret) ∧
      sealLine aead json key fates.nonce record = some line := by
  unfold Cache.appendLine at h
  split at h
  · cases h
  · rename_i hpath
    simp only [Bool.or_eq_true, Bool.not_eq_true', not_or, Bool.not_eq_false] at hpath
    refine ⟨hpath.1, ?_⟩
    rcases hkey : msgcacheKey fates.key c.secret with ⟨key, secret'⟩
    rw [hkey] at h
    simp only [Prod.mk.injEq] at h
    obtain ⟨hline, rfl⟩ := h
    split at hline
    · obtain ⟨key, rfl, hseal⟩ := Option.bind_eq_some_iff.mp hline
      exact ⟨key, rfl, hseal⟩
    · cases hline

theorem appendLine_secret (c : Cache json) (aead : Aead) (channel : String) (record : json.Value)
    (fates : AppendFates) :
    (c.appendLine aead channel record fates).2 = c.secret ∨
      (c.appendLine aead channel record fates).2 = (msgcacheKey fates.key c.secret).2 := by
  unfold Cache.appendLine
  split
  · exact .inl rfl
  · exact .inr rfl

/-- An append adds its line to the log, or a part of it, or leaves the logs as they are. -/
theorem append_cases (c : Cache json) (aead : Aead) (account channel : String) (record : json.Value)
    (fates : AppendFates) (write : Written) :
    let c' := c.append aead account channel record fates write
    (c'.logs = c.logs ∧ c'.attempts = c.attempts ++ [⟨account, channel, record, false⟩] ∧
      (c'.secret = c.secret ∨ c'.secret = (msgcacheKey fates.key c.secret).2)) ∨
    validChannelId channel = true ∧ ∃ key line,
      (c.appendLine aead channel record fates).1 = some line ∧
      msgcacheKey fates.key c.secret = (some key, c'.secret) ∧
      sealLine aead json key fates.nonce record = some line ∧
      c'.attempts = c.attempts ++ [⟨account, channel, record, write = .whole⟩] ∧
      c'.logs = Function.update c.logs account (Function.update (c.logs account) channel
        (some ((c.logs account channel).getD [] ++ match write with
          | .whole => line ++ ['\n']
          | .cut written => (line ++ ['\n']).take written))) := by
  intro c'
  rcases happend : c.appendLine aead channel record fates with ⟨line, secret⟩
  have hc' : c' = c.append aead account channel record fates write := rfl
  unfold Cache.append at hc'
  rw [happend] at hc'
  cases line with
  | none =>
      refine .inl ?_
      rw [hc']
      refine ⟨rfl, rfl, ?_⟩
      have hsecret := appendLine_secret c aead channel record fates
      rwa [happend] at hsecret
  | some line =>
      obtain ⟨hvalid, key, hkey, hseal⟩ := appendLine_some happend
      refine .inr ⟨hvalid, key, line, rfl, ?_, hseal, congrArg Cache.attempts hc', congrArg Cache.logs hc'⟩
      rw [hc']
      exact hkey

theorem read_cases (c : Cache json) (aead : Aead) (account channel : String) (limit : Option ℕ)
    (createDir : Bool) (fates : ReadFates) :
    let c' := (c.read aead account channel limit createDir fates).2
    c'.logs = c.logs ∧ c'.attempts = c.attempts ∧
      (c'.secret = c.secret ∨ c'.secret = (msgcacheKey fates.key c.secret).2) := by
  intro c'
  have hc' : c' = (c.read aead account channel limit createDir fates).2 := rfl
  unfold Cache.read at hc'
  split at hc'
  · exact ⟨by rw [hc'], by rw [hc'], .inl (by rw [hc'])⟩
  · split at hc'
    · exact ⟨by rw [hc'], by rw [hc'], .inl (by rw [hc'])⟩
    · split at hc'
      · exact ⟨by rw [hc'], by rw [hc'], .inl (by rw [hc'])⟩
      · exact ⟨by rw [hc'], by rw [hc'], .inr (by rw [hc'])⟩

theorem update_update_apply {α : Type} (logs : String → String → α) (account channel : String)
    (log : α) (account' channel' : String) :
    Function.update logs account (Function.update (logs account) channel log) account' channel' =
      if account' = account ∧ channel' = channel then log else logs account' channel' := by
  by_cases haccount : account' = account
  · subst haccount
    by_cases hchannel : channel' = channel
    · simp [hchannel]
    · simp [hchannel]
  · simp [haccount]

/-! ## The key -/

/-- A record is in the cache, its key cannot be read, and another one takes its place. -/
def Cache.Replaces (c : Cache json) (fates : CacheKeyFates) : Prop :=
  (∃ a ∈ c.attempts, a.ok = true) ∧ fates.entry = true ∧ fates.get = false ∧ fates.set.2 = true

/-- A new key is reported as kept and is not. -/
def Cache.Forgets (c : Cache json) (fates : CacheKeyFates) : Prop :=
  fates.entry = true ∧ (fates.get = false ∨ asKey c.secret = none) ∧
    fates.set.1 = true ∧ fates.set.2 = false

/-- No call puts another key in the place of one that is in use, and no append uses a key that is not
kept. -/
def KeepsKey (c : Cache json) : Input json → Prop
  | .append _ _ _ fates _ => ¬c.Replaces fates.key ∧ ¬c.Forgets fates.key
  | .read _ _ _ _ fates => ¬c.Replaces fates.key

/-- The keyring works, and so does the disk. -/
def reads (fates : ReadFates) : Bool :=
  fates.found && fates.reads && fates.key.entry && fates.key.get

/-- A read shows the record. -/
def Cache.Readable (aead : Aead) (c : Cache json) (a : Attempt json) : Prop :=
  ∀ fates, reads fates → ∃ out, (c.read aead a.account a.channel none true fates).1 = some out ∧
    a.record ∈ out

def Cache.AllReadable (aead : Aead) (c : Cache json) : Prop :=
  ∀ a ∈ c.attempts, a.ok = true → c.Readable aead a

def Input.isWhole : Input json → Bool
  | .append _ _ _ _ write => write = .whole
  | .read .. => true

/-- All logs end in whole lines, and every appended record has its line, under the key that is
kept. -/
structure Kept (aead : Aead) (c : Cache json) : Prop where
  complete : ∀ account channel contents, c.logs account channel = some contents →
    Lines.Complete contents
  holds : ∀ a ∈ c.attempts, a.ok = true → validChannelId a.channel = true ∧
    ∃ key contents line, asKey c.secret = some key ∧ c.logs a.account a.channel = some contents ∧
      IsLine aead json key line a.record ∧ Lines.Holds contents line

variable {fates : CacheKeyFates}

theorem not_replaces {key : Key} (hok : ∃ a ∈ c.attempts, a.ok = true) (h : ¬c.Replaces fates)
    (hkey : asKey c.secret = some key) : (msgcacheKey fates c.secret).2 = c.secret := by
  unfold msgcacheKey
  split
  · rfl
  · rename_i hentry
    cases hget : fates.get with
    | true => simp [hkey]
    | false =>
        have hset : fates.set.2 = false := by
          by_contra hset
          exact h ⟨hok, by simpa using hentry, hget, by simpa using hset⟩
        simp [asKey, hset]

theorem not_forgets {key : Key} (h : ¬c.Forgets fates)
    (hkey : msgcacheKey fates c.secret = (some key, secret)) : asKey secret = some key := by
  unfold msgcacheKey at hkey
  split at hkey
  · cases hkey
  · rename_i hentry
    split at hkey
    · rename_i hread
      obtain ⟨hmade, rfl⟩ := Prod.mk.inj hkey
      obtain rfl := Option.some.inj hmade
      split at hread
      · exact hread
      · cases hread
    · rename_i hread
      obtain ⟨hmade, rfl⟩ := Prod.mk.inj hkey
      obtain ⟨hreported, hfresh⟩ := Option.ite_none_right_eq_some.mp hmade
      obtain rfl := Option.some.inj hfresh
      have hset : fates.set.2 = true := by
        by_contra hset
        refine h ⟨by simpa using hentry, ?_, hreported, by simpa using hset⟩
        cases hget : fates.get with
        | true => exact .inr (by simpa [hget] using hread)
        | false => exact .inl rfl
      rw [if_pos hset, asKey_key]

/-- Calls that change no log keep what is kept, if they keep the key. -/
theorem Kept.still (h : Kept aead c) (hlogs : c'.logs = c.logs)
    (hattempts : ∀ a ∈ c'.attempts, a.ok = true → a ∈ c.attempts)
    (hsecret : (∃ a ∈ c.attempts, a.ok = true) → c'.secret = c.secret) : Kept aead c' where
  complete := by
    rw [hlogs]
    exact h.complete
  holds a ha hok := by
    rw [hlogs, hsecret ⟨a, hattempts a ha hok, hok⟩]
    exact h.holds a (hattempts a ha hok) hok

/-- A key that does not change while a record is there. -/
theorem Kept.secret_eq (h : Kept aead c) (hkeeps : ¬c.Replaces fates)
    (hsecret : c'.secret = c.secret ∨ c'.secret = (msgcacheKey fates c.secret).2)
    (hok : ∃ a ∈ c.attempts, a.ok = true) : c'.secret = c.secret := by
  obtain ⟨a, ha, haok⟩ := hok
  obtain ⟨-, key, -, -, hkey, -⟩ := h.holds a ha haok
  rcases hsecret with hsame | hcall
  · exact hsame
  · exact hcall.trans (not_replaces ⟨a, ha, haok⟩ hkeeps hkey)

theorem Kept.append (h : Kept aead c) {fates : AppendFates}
    (hkeeps : ¬c.Replaces fates.key ∧ ¬c.Forgets fates.key) :
    Kept aead (c.append aead account channel record fates .whole) := by
  rcases append_cases c aead account channel record fates .whole with
    ⟨hlogs, hattempts, hsecret⟩ | ⟨hvalid, key, line, -, hkey, hseal, hattempts, hlogs⟩
  · refine h.still hlogs (fun a ha hok => ?_) (h.secret_eq hkeeps.1 hsecret)
    rw [hattempts, List.mem_append, List.mem_singleton] at ha
    rcases ha with ha | rfl
    · exact ha
    · cases hok
  · have hcontents : Lines.Complete ((c.logs account channel).getD []) := by
      cases hlog : c.logs account channel with
      | none => rfl
      | some contents => exact h.complete account channel contents hlog
    refine ⟨fun account' channel' contents' hlog => ?_, fun a ha hok => ?_⟩
    · rw [hlogs, update_update_apply] at hlog
      split at hlog
      · obtain rfl := Option.some.inj hlog
        rw [← List.append_assoc]
        exact Lines.complete_append
      · exact h.complete account' channel' contents' hlog
    · rw [hattempts, List.mem_append, List.mem_singleton] at ha
      rcases ha with ha | rfl
      · obtain ⟨hvalid', key', contents, line', hkey', hlog, hline, hholds⟩ := h.holds a ha hok
        have hsecret := h.secret_eq hkeeps.1 (.inr (congrArg Prod.snd hkey).symm) ⟨a, ha, hok⟩
        obtain ⟨more, hmore⟩ : ∃ more, (c.append aead account channel record fates .whole).logs
            a.account a.channel = some (contents ++ more) := by
          rw [hlogs, update_update_apply]
          split
          · rename_i hsame
            rw [← hsame.1, ← hsame.2, hlog]
            exact ⟨_, rfl⟩
          · exact ⟨[], by simpa using hlog⟩
        exact ⟨hvalid', key', _, line', hsecret ▸ hkey', hmore, hline, hholds.append⟩
      · refine ⟨hvalid, key, _, line, not_forgets hkeeps.2 hkey, ?_, sealLine_isLine hseal,
          Lines.holds_appended hcontents⟩
        rw [hlogs, update_update_apply, if_pos ⟨rfl, rfl⟩]

theorem Kept.step (h : Kept aead c) {i : Input json} (hkeeps : KeepsKey c i) (hwhole : i.isWhole = true)
    (hstep : c.step aead i = some c') : Kept aead c' := by
  cases i with
  | append account channel record fates write =>
      obtain rfl := Option.some.inj hstep
      obtain rfl : write = .whole := of_decide_eq_true hwhole
      exact h.append hkeeps
  | read account channel limit createDir fates =>
      obtain rfl := Option.some.inj hstep
      obtain ⟨hlogs, hattempts, hsecret⟩ := read_cases c aead account channel limit createDir fates
      refine h.still hlogs (fun a ha _ => hattempts ▸ ha) (h.secret_eq hkeeps hsecret)

theorem Kept.readable (h : Kept aead c) {a : Attempt json} (ha : a ∈ c.attempts)
    (hok : a.ok = true) : c.Readable aead a := by
  intro fates hreads
  obtain ⟨hvalid, key, contents, line, hkey, hlog, hline, hholds⟩ := h.holds a ha hok
  simp only [reads, Bool.and_eq_true] at hreads
  obtain ⟨⟨⟨hfound, hread⟩, hentry⟩, hget⟩ := hreads
  have hmsgcache : msgcacheKey fates.key c.secret = (some key, c.secret) := by
    simp [msgcacheKey, hentry, hget, hkey]
  refine ⟨readLines aead json key none contents, ?_, hline.mem_read hholds⟩
  simp [Cache.read, hvalid, hfound, hread, hlog, hmsgcache]

/-- No file, and any entry in the keyring. -/
def Cache.start (json : Json) (secret : Option Bytes) : Cache json where
  logs _ _ := none
  secret := secret
  attempts := []

/-- While no call takes the key away, every appended record can be read. -/
theorem appended_stay_readable {inputs : List (Input json)}
    (h : ((cacheSystem aead json).restrict fun _ i => i.isWhole).Guarded KeepsKey
      (Cache.start json secret) inputs c) : c.AllReadable aead := by
  have hkept : Kept aead c := by
    refine h.invariant (fun s i t hs hkeeps hstep => ?_) ⟨nofun, nofun⟩
    obtain ⟨hwhole, hstep⟩ := StepSystem.restrict_step.mp hstep
    exact hs.step hkeeps hwhole hstep
  exact fun a ha hok => hkept.readable ha hok

/-! ## Torn lines -/

/-- Every appended record is shown, in order; an append that was cut short shows one record at
most. -/
def Shows (attempts : List (Attempt json)) (out : List json.Value) : Prop :=
  ∃ parts : List (List json.Value), out = parts.flatten ∧ List.Forall₂
    (fun a part => part.length ≤ 1 ∧ (a.ok = true → part = [a.record])) attempts parts

def Cache.attemptsOf (c : Cache json) (account channel : String) : List (Attempt json) :=
  c.attempts.filter fun a => a.account = account ∧ a.channel = channel

/-- What a read of all records shows. -/
def Cache.ShowsAll (aead : Aead) (c : Cache json) : Prop :=
  ∀ account channel fates, validChannelId channel = true → reads fates = true →
    fates.key.set = (true, true) →
    ∃ out, (c.read aead account channel none true fates).1 = some out ∧
      Shows (c.attemptsOf account channel) out

def Input.keyringWorks : Input json → Bool
  | .append _ _ _ fates _ => fates.key.entry && fates.key.get && fates.key.set == (true, true)
  | .read _ _ _ _ fates => fates.key.entry && fates.key.get && fates.key.set == (true, true)

/-- No line is written whole behind a part of a line. -/
def MeetsWholeLines (aead : Aead) (c : Cache json) : Input json → Prop
  | .append account channel record fates .whole =>
      (c.appendLine aead channel record fates).1.isSome →
        Lines.Complete ((c.logs account channel).getD [])
  | _ => True

variable {key : Key} {contents tail : List Char} {attempts done rest : List (Attempt json)}
  {a : Attempt json}

theorem readLines_append (h : Lines.Complete contents) :
    readLines aead json key none (contents ++ tail) =
      readLines aead json key none contents ++ readLines aead json key none tail := by
  simp [readLines, Lines.lines_append h]

theorem lines_part (h : '\n' ∉ tail) : Lines.lines tail = if tail = [] then [] else [tail] := by
  have hfrom : ∀ line : List Char, Lines.linesFrom line tail =
      if line ++ tail = [] then [] else [line ++ tail] := by
    induction tail with
    | nil => simp [Lines.linesFrom]
    | cons c tail ih =>
        rw [List.mem_cons, not_or] at h
        intro line
        simp [Lines.linesFrom, Ne.symm h.1, ih h.2]
  simpa [Lines.lines] using hfrom []

theorem length_readLines (h : (Lines.lines contents).length ≤ 1) :
    (readLines aead json key none contents).length ≤ 1 := by
  simp only [readLines, Option.elim_none, List.drop_zero]
  exact (List.length_filterMap_le _ _).trans ((List.length_filter_le _ _).trans h)

theorem readLines_line (h : IsLine aead json key line record) :
    readLines aead json key none (line ++ ['\n']) = [record] := by
  have hstrip : Lines.stripReturn line = line :=
    if_neg fun hlast => h.carriage (List.mem_of_getLast? hlast)
  have hlines : Lines.lines (line ++ ['\n']) = [line] := by
    rw [Lines.lines, Lines.linesFrom_whole h.feed, List.nil_append, hstrip]
  simp [readLines, hlines, h.nonempty, h.opens]

/-- The whole lines show the first attempts, and the attempts behind them were all cut short. -/
def Shown (aead : Aead) (json : Json) (secret : Option Bytes) (contents : List Char)
    (attempts : List (Attempt json)) : Prop :=
  ∃ closed tail done rest, contents = closed ++ tail ∧ Lines.Complete closed ∧ '\n' ∉ tail ∧
    attempts = done ++ rest ∧ (∀ a ∈ rest, a.ok = false) ∧ (tail ≠ [] → rest ≠ []) ∧
    ∀ key, (∀ k, asKey secret = some k → k = key) →
      Shows done (readLines aead json key none closed)

theorem Shows.nil : Shows ([] : List (Attempt json)) [] :=
  ⟨[], rfl, .nil⟩

theorem Shows.append {out out' : List json.Value} (h : Shows done out) (h' : Shows rest out') :
    Shows (done ++ rest) (out ++ out') := by
  obtain ⟨parts, rfl, hparts⟩ := h
  obtain ⟨parts', rfl, hparts'⟩ := h'
  exact ⟨parts ++ parts', List.flatten_append.symm, List.rel_append hparts hparts'⟩

theorem Shows.of_none (h : ∀ a ∈ rest, a.ok = false) : Shows rest [] := by
  induction rest with
  | nil => exact .nil
  | cons a rest ih =>
      obtain ⟨parts, hflatten, hparts⟩ := ih fun a ha => h a (List.mem_cons_of_mem _ ha)
      refine ⟨[] :: parts, hflatten, .cons ⟨Nat.zero_le _, fun hok => ?_⟩ hparts⟩
      rw [h a List.mem_cons_self] at hok
      cases hok

/-- Attempts that were cut short show one record at most. -/
theorem Shows.of_cut {out : List json.Value} (h : ∀ a ∈ rest, a.ok = false) (hout : out.length ≤ 1)
    (hrest : out ≠ [] → rest ≠ []) : Shows rest out := by
  cases rest with
  | nil =>
      obtain rfl : out = [] := not_not.mp fun hne => hrest hne rfl
      exact .nil
  | cons a rest =>
      obtain ⟨parts, hflatten, hparts⟩ := Shows.of_none fun a ha => h a (List.mem_cons_of_mem _ ha)
      refine ⟨out :: parts, by rw [List.flatten_cons, ← hflatten, List.append_nil],
        .cons ⟨hout, fun hok => ?_⟩ hparts⟩
      rw [h a List.mem_cons_self] at hok
      cases hok

theorem Shown.shows (h : Shown aead json secret contents attempts)
    (hkey : ∀ k, asKey secret = some k → k = key) :
    Shows attempts (readLines aead json key none contents) := by
  obtain ⟨closed, tail, done, rest, rfl, hclosed, htail, rfl, hcut, hrest, hdone⟩ := h
  rw [readLines_append hclosed]
  refine (hdone key hkey).append (.of_cut hcut (length_readLines ?_) fun hne => hrest ?_)
  · rw [lines_part htail]
    split <;> simp
  · rintro rfl
    exact hne rfl

theorem Shown.secret_congr {secret' : Option Bytes} (h : Shown aead json secret contents attempts)
    (hsecret : ∀ k, asKey secret = some k → asKey secret' = some k) :
    Shown aead json secret' contents attempts := by
  obtain ⟨closed, tail, done, rest, hcontents, hclosed, htail, hattempts, hcut, hrest, hdone⟩ := h
  exact ⟨closed, tail, done, rest, hcontents, hclosed, htail, hattempts, hcut, hrest,
    fun key hkey => hdone key fun k hk => hkey k (hsecret k hk)⟩

/-- An append that fails leaves some of its line behind, or nothing. -/
theorem Shown.cut (h : Shown aead json secret contents attempts) (ha : a.ok = false)
    (hline : '\n' ∉ line) (written : ℕ) :
    Shown aead json secret (contents ++ (line ++ ['\n']).take written) (attempts ++ [a]) := by
  obtain ⟨closed, tail, done, rest, rfl, hclosed, htail, rfl, hcut, hrest, hdone⟩ := h
  have hcut' : ∀ a' ∈ rest ++ [a], a'.ok = false := by
    intro a' ha'
    rcases List.mem_append.mp ha' with ha' | ha'
    · exact hcut a' ha'
    · rw [List.mem_singleton.mp ha', ha]
  by_cases hwritten : written ≤ line.length
  · refine ⟨closed, tail ++ line.take written, done, rest ++ [a], ?_, hclosed, ?_, ?_, hcut',
      fun _ => by simp, hdone⟩
    · rw [List.take_append_of_le_length hwritten, List.append_assoc]
    · rw [List.mem_append, not_or]
      exact ⟨htail, fun hmem => hline (List.mem_of_mem_take hmem)⟩
    · rw [List.append_assoc]
  · -- The line feed is there, and ends the part that was there as well.
    have hall : (line ++ ['\n']).take written = line ++ ['\n'] :=
      List.take_of_length_le (by simp; omega)
    have htailLine : '\n' ∉ tail ++ line := by
      rw [List.mem_append, not_or]
      exact ⟨htail, hline⟩
    refine ⟨closed ++ (tail ++ line ++ ['\n']), [], done ++ (rest ++ [a]), [], ?_, ?_, by simp, by simp,
      by simp, by simp, fun key hkey => ?_⟩
    · simp [hall]
    · rw [← List.append_assoc]
      exact Lines.complete_append
    · rw [readLines_append hclosed]
      refine (hdone key hkey).append (.of_cut hcut' (length_readLines ?_) (by simp))
      rw [Lines.lines, Lines.linesFrom_whole htailLine]
      simp

/-- An append that works, on whole lines. -/
theorem Shown.whole (h : Shown aead json secret contents attempts) (hwhole : Lines.Complete contents)
    (hkey : asKey secret = some key) (hline : IsLine aead json key line a.record) :
    Shown aead json secret (contents ++ (line ++ ['\n'])) (attempts ++ [a]) := by
  obtain ⟨closed, tail, done, rest, rfl, hclosed, htail, rfl, hcut, -, hdone⟩ := h
  obtain rfl : tail = [] := by
    rcases Lines.complete_cases hwhole with hnil | ⟨front, hfront⟩
    · exact (List.append_eq_nil_iff.mp hnil).2
    · by_contra hne
      refine htail (List.mem_of_getLast? ?_)
      rw [← List.getLast?_append_of_ne_nil closed hne, hfront]
      simp
  rw [List.append_nil] at hwhole ⊢
  refine ⟨closed ++ (line ++ ['\n']), [], done ++ rest ++ [a], [], by simp, ?_, by simp, by simp,
    by simp, by simp, fun key' hkey' => ?_⟩
  · rw [← List.append_assoc]
    exact Lines.complete_append
  · obtain rfl := hkey' key hkey
    rw [readLines_append hclosed, readLines_line hline, ← List.append_nil (readLines _ _ _ _ closed)]
    have hone : Shows [a] [a.record] :=
      ⟨[[a.record]], rfl, .cons ⟨Nat.le_refl _, fun _ => rfl⟩ .nil⟩
    exact ((hdone key hkey').append (.of_none hcut)).append hone

/-! ### Runs -/

def AllShown (aead : Aead) (c : Cache json) : Prop :=
  ∀ account channel, Shown aead json c.secret ((c.logs account channel).getD [])
    (c.attemptsOf account channel)

theorem msgcacheKey_works (h : (fates.entry && fates.get && fates.set == (true, true)) = true)
    (secret : Option Bytes) :
    ∃ key, (msgcacheKey fates secret).1 = some key ∧ asKey (msgcacheKey fates secret).2 = some key ∧
      ∀ k, asKey secret = some k → k = key := by
  simp only [Bool.and_eq_true, beq_iff_eq] at h
  obtain ⟨⟨hentry, hget⟩, hset⟩ := h
  have hgives : fates.gives secret = true := by simp [CacheKeyFates.gives, hentry, hset]
  have hkeeps : fates.keeps secret = true := by simp [CacheKeyFates.keeps, hget]
  obtain ⟨key, hkey, hkept⟩ := msgcacheKey_gives hgives
  refine ⟨key, hkey, hkept, fun k hk => ?_⟩
  have hsame := (msgcacheKey_keeps hkeeps hk).1
  rw [hsame, hk] at hkept
  exact Option.some.inj hkept

theorem attemptsOf_append (hattempts : c'.attempts = c.attempts ++ [a]) (account channel : String) :
    c'.attemptsOf account channel = c.attemptsOf account channel ++
      if a.account = account ∧ a.channel = channel then [a] else [] := by
  rw [Cache.attemptsOf, hattempts, List.filter_append, List.filter_singleton]
  simp [Cache.attemptsOf]

theorem AllShown.append (h : AllShown aead c) {fates : AppendFates} {write : Written}
    (hworks : (fates.key.entry && fates.key.get && fates.key.set == (true, true)) = true)
    (hmeets : MeetsWholeLines aead c (.append account channel record fates write)) :
    AllShown aead (c.append aead account channel record fates write) := by
  obtain ⟨key, hkey, hkept, hold⟩ := msgcacheKey_works hworks c.secret
  intro account' channel'
  rcases append_cases c aead account channel record fates write with
    ⟨hlogs, hattempts, hsecret⟩ | ⟨-, key', line, hline, hcall, hseal, hattempts, hlogs⟩
  · have hsame : ∀ k, asKey c.secret = some k →
        asKey (c.append aead account channel record fates write).secret = some k := by
      intro k hk
      rcases hsecret with hsame | hcall
      · rwa [hsame]
      · rw [hcall, hold k hk, hkept]
    have hshown := (h account' channel').secret_congr hsame
    rw [hlogs, attemptsOf_append hattempts]
    split
    · have hcut := hshown.cut (a := ⟨account, channel, record, false⟩) rfl (List.not_mem_nil (a := '\n')) 0
      simpa using hcut
    · simpa using hshown
  · rw [hcall] at hkey hkept
    obtain rfl := Option.some.inj hkey
    have hshown := (h account' channel').secret_congr fun k hk => hold k hk ▸ hkept
    have hisLine := sealLine_isLine hseal
    rw [hlogs, update_update_apply, attemptsOf_append hattempts]
    by_cases hhere : account' = account ∧ channel' = channel
    · obtain ⟨rfl, rfl⟩ := hhere
      rw [if_pos ⟨rfl, rfl⟩, if_pos ⟨rfl, rfl⟩]
      cases write with
      | whole =>
          exact hshown.whole (hmeets (hline ▸ rfl)) hkept hisLine
      | cut written => exact hshown.cut rfl hisLine.feed written
    · rw [if_neg hhere, if_neg fun h => hhere ⟨h.1.symm, h.2.symm⟩, List.append_nil]
      exact hshown

theorem AllShown.step (h : AllShown aead c) {i : Input json} (hmeets : MeetsWholeLines aead c i)
    (hworks : i.keyringWorks = true) (hstep : c.step aead i = some c') : AllShown aead c' := by
  cases i with
  | append account channel record fates write =>
      obtain rfl := Option.some.inj hstep
      exact h.append hworks hmeets
  | read account channel limit createDir fates =>
      obtain rfl := Option.some.inj hstep
      obtain ⟨hlogs, hattempts, hsecret⟩ := read_cases c aead account channel limit createDir fates
      obtain ⟨key, -, hkept, hold⟩ := msgcacheKey_works hworks c.secret
      intro account' channel'
      rw [hlogs, Cache.attemptsOf, hattempts]
      refine (h account' channel').secret_congr fun k hk => ?_
      rcases hsecret with hsame | hcall
      · rwa [hsame]
      · rw [hcall, hold k hk, hkept]

theorem AllShown.showsAll (h : AllShown aead c) : c.ShowsAll aead := by
  intro account channel fates hvalid hreads hset
  simp only [reads, Bool.and_eq_true] at hreads
  obtain ⟨⟨⟨hfound, hread⟩, hentry⟩, hget⟩ := hreads
  have hworks : (fates.key.entry && fates.key.get && fates.key.set == (true, true)) = true := by
    simp [hentry, hget, hset]
  obtain ⟨key, hkey, -, hold⟩ := msgcacheKey_works hworks c.secret
  refine ⟨_, ?_, (h account channel).shows hold⟩
  rcases hcall : msgcacheKey fates.key c.secret with ⟨key', secret'⟩
  rw [hcall] at hkey
  obtain rfl := hkey
  cases hlog : c.logs account channel with
  | none => simp [Cache.read, hvalid, hfound, hlog, readLines, Lines.lines, Lines.linesFrom]
  | some contents => simp [Cache.read, hvalid, hfound, hlog, hread, hcall]

/-- With a keyring that works, and no line written whole behind a part of one, a read shows every
appended record. -/
theorem torn_append_costs_one {inputs : List (Input json)}
    (h : ((cacheSystem aead json).restrict fun _ i => i.keyringWorks).Guarded (MeetsWholeLines aead)
      (Cache.start json secret) inputs c) : c.ShowsAll aead := by
  have hshown : AllShown aead c := by
    refine h.invariant (fun s i t hs hmeets hstep => ?_) fun _ _ => ?_
    · obtain ⟨hworks, hstep⟩ := StepSystem.restrict_step.mp hstep
      exact hs.step hmeets hworks hstep
    · exact ⟨[], [], [], [], rfl, rfl, by simp, rfl, by simp, by simp, fun _ _ => .nil⟩
  exact hshown.showsAll

/-! ## Two runs -/

/-- The tag is a part of the key. -/
def keyTag : Aead where
  encrypt key _ plaintext := some (plaintext ++ key.val.take 16)
  decrypt key _ ct :=
    if ct.drop (ct.length - 16) = key.val.take 16 then some (ct.take (ct.length - 16)) else none
  length_encrypt {key} _ _ _ h := by
    cases h
    simp [key.property]
  decrypt_encrypt {key} _ _ _ h := by
    cases h
    simp [key.property]

def appends (record : Bytes) (write : Written) : Input jsonText :=
  .append "a" "c" record appendFates write

/-- The key cannot be read, and a new one is kept. -/
def unreadable : ReadFates where
  key := { get := false, fresh := ⟨List.replicate 32 3, rfl⟩ }

theorem appended_stay_readable_one :
    ((Cache.start jsonText none).append keyTag "a" "c" [49] appendFates .whole).AllReadable keyTag := by
  have hkeeps : KeepsKey (Cache.start jsonText none) (appends [49] .whole) := by
    refine ⟨?_, ?_⟩
    · rintro ⟨⟨a, ha, -⟩, -⟩
      cases ha
    · rintro ⟨-, -, -, hset⟩
      cases hset
  have hrun : ((cacheSystem keyTag jsonText).restrict fun _ i => i.isWhole).Guarded KeepsKey
      (Cache.start jsonText none) [appends [49] .whole] _ := .cons hkeeps rfl (.nil _)
  exact appended_stay_readable hrun

/-- A read that cannot read the key loses the record. -/
theorem unreadable_key_loses :
    let c := ((Cache.start jsonText none).append keyTag "a" "c" [49] appendFates .whole).read keyTag
      "a" "c" none true unreadable
    ((cacheSystem keyTag jsonText).restrict fun _ i => i.isWhole).Run (Cache.start jsonText none)
        [appends [49] .whole, .read "a" "c" none true unreadable] c.2 ∧
      ¬c.2.AllReadable keyTag := by
  intro c
  refine ⟨.cons rfl (.cons rfl (.nil _)), fun h => ?_⟩
  obtain ⟨out, hout, hmem⟩ := h _ (List.mem_singleton.mpr rfl) rfl readFates (by decide)
  have hread : (c.2.read keyTag "a" "c" none true readFates).1.map List.length = some 0 := by
    decide +kernel
  rw [show (c.2.read keyTag "a" "c" none true readFates).1 = some out from hout] at hread
  obtain rfl := List.length_eq_zero_iff.mp (Option.some.inj hread)
  cases hmem

theorem torn_append_costs_one_whole :
    (((Cache.start jsonText none).append tagOnly "a" "c" [49] appendFates .whole).append tagOnly
      "a" "c" [50] appendFates (.cut 1)).ShowsAll tagOnly := by
  have hrun : ((cacheSystem tagOnly jsonText).restrict fun _ i => i.keyringWorks).Guarded
      (MeetsWholeLines tagOnly) (Cache.start jsonText none)
      [appends [49] .whole, appends [50] (.cut 1)] _ :=
    .cons (fun _ => rfl) rfl (.cons trivial rfl (.nil _))
  exact torn_append_costs_one hrun

/-- One character of a line is written, and the next line goes on with it. -/
theorem torn_append_costs_two :
    let c := (((Cache.start jsonText none).append tagOnly "a" "c" [49] appendFates (.cut 1)).append
      tagOnly "a" "c" [50] appendFates .whole)
    ((cacheSystem tagOnly jsonText).restrict fun _ i => i.keyringWorks).Run (Cache.start jsonText none)
        [appends [49] (.cut 1), appends [50] .whole] c ∧
      (∃ a ∈ c.attempts, a.ok = true ∧ a.record = [50]) ∧ ¬c.ShowsAll tagOnly := by
  intro c
  refine ⟨.cons rfl (.cons rfl (.nil _)), ⟨_, List.mem_cons_of_mem _ (List.mem_singleton.mpr rfl), rfl,
    rfl⟩, fun h => ?_⟩
  obtain ⟨out, hout, parts, rfl, hparts⟩ := h "a" "c" readFates (by decide) (by decide) rfl
  have hread : (c.read tagOnly "a" "c" none true readFates).1.map List.length = some 0 := by
    decide +kernel
  rw [show (c.read tagOnly "a" "c" none true readFates).1 = some parts.flatten from hout] at hread
  have hnone := List.length_eq_zero_iff.mp (Option.some.inj hread)
  have hattempts : c.attemptsOf "a" "c" = [⟨"a", "c", [49], false⟩, ⟨"a", "c", [50], true⟩] := by rfl
  rw [hattempts] at hparts
  obtain ⟨part, parts, -, hrest, rfl⟩ := List.forall₂_cons_left_iff.mp hparts
  obtain ⟨part', parts, hpart', -, rfl⟩ := List.forall₂_cons_left_iff.mp hrest
  rw [hpart'.2 rfl] at hnone
  simp at hnone

end SpecterComs.CacheRuns
