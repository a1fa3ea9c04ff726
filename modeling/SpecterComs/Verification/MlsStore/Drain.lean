import SpecterComs.Model.MlsStore.Msgcache
import SpecterComs.Verification.MlsStore.Isolation

/-! # No consumed message is lost

Where the append works and the drain deletes what it has read, every message whose
ratchet key was consumed and saved is in the cache or in the message history.
-/

namespace SpecterComs.MlsStore

variable {aead : Aead} {mls : MlsCrypto} {json : Json} {d d' : Device json} {c : Consumed json}

/-! ## The key of the cache -/

/-- An entry that holds a key is read, or no other key takes its place. -/
def CacheKeyFates.keeps (fates : CacheKeyFates) (secret : Option Bytes) : Bool :=
  (asKey secret).isNone || !fates.entry || fates.get || (!fates.set.1 && !fates.set.2)

/-- The entry is read, or a new key is kept there. -/
def CacheKeyFates.gives (fates : CacheKeyFates) (secret : Option Bytes) : Bool :=
  fates.entry && ((asKey secret).isSome && fates.get || fates.set.1 && fates.set.2)

theorem asKey_key (key : Key) : asKey (some key.val) = some key := by
  simp [asKey, key.property]

variable {fates : CacheKeyFates} {secret : Option Bytes} {key : Key}

theorem msgcacheKey_keeps (h : fates.keeps secret) (hkey : asKey secret = some key) :
    (msgcacheKey fates secret).2 = secret ∧
      ∀ key', (msgcacheKey fates secret).1 = some key' → key' = key := by
  unfold msgcacheKey
  split
  · exact ⟨rfl, fun _ hk => nomatch hk⟩
  rename_i hentry
  simp only [Bool.not_eq_true', Bool.not_eq_false] at hentry
  simp only [CacheKeyFates.keeps, hkey, hentry, Option.isNone_some, Bool.not_true,
    Bool.false_or, Bool.or_eq_true, Bool.and_eq_true, Bool.not_eq_true'] at h
  cases hget : fates.get with
  | true => simp [hkey]
  | false =>
      obtain ⟨hreports, hset⟩ := h.resolve_left (by simp [hget])
      simp [asKey, hreports, hset]

theorem msgcacheKey_gives (hgives : fates.gives secret) :
    ∃ key, (msgcacheKey fates secret).1 = some key ∧ asKey (msgcacheKey fates secret).2 = some key := by
  simp only [CacheKeyFates.gives, Bool.and_eq_true, Bool.or_eq_true] at hgives
  obtain ⟨hentry, hgives⟩ := hgives
  unfold msgcacheKey
  rw [if_neg (by simp [hentry])]
  cases hread : asKey (if fates.get then secret else none) with
  | some key =>
      cases hget : fates.get with
      | true => exact ⟨key, rfl, by simpa [hget] using hread⟩
      | false => simp [hget, asKey] at hread
  | none =>
      have hset : fates.set.1 ∧ fates.set.2 := by
        refine hgives.resolve_left fun ⟨hkey, hget⟩ => ?_
        rw [if_pos hget] at hread
        rw [hread] at hkey
        exact nomatch hkey
      exact ⟨fates.fresh, by simp [hset.1], by simp [hset.2, asKey_key]⟩

/-! ## Lines -/

/-- A line that opens to the record and is no more than a line. -/
structure IsLine (aead : Aead) (json : Json) (key : Key) (line : List Char)
    (record : json.Value) : Prop where
  opens : openLine aead json key line = some record
  feed : '\n' ∉ line
  carriage : '\r' ∉ line
  nonempty : line ≠ []

variable {record : json.Value} {line : List Char}

theorem sealLine_isLine {nonce : Nonce} (h : sealLine aead json key nonce record = some line) :
    IsLine aead json key line record := by
  obtain ⟨blob, hblob, rfl⟩ := Option.map_eq_some_iff.mp h
  have hopens := decryptBlob_encryptBlob hblob
  refine ⟨?_, fun hc => ?_, fun hc => ?_, fun hnil => ?_⟩
  · rw [openLine, Base64.decode_encode, Option.bind_some, hopens, Option.bind_some]
    exact json.fromSlice_toVec record
  · exact absurd (Base64.mem_encode hc) (by rw [Base64.alphabet_eq]; decide)
  · exact absurd (Base64.mem_encode hc) (by rw [Base64.alphabet_eq]; decide)
  · rw [Base64.encode_eq_nil hnil] at hopens
    exact nomatch hopens

theorem IsLine.mem_read {contents : List Char} (h : IsLine aead json key line record)
    (hholds : Lines.Holds contents line) : record ∈ readLines aead json key none contents := by
  refine List.mem_filterMap.mpr ⟨line, ?_, h.opens⟩
  exact List.mem_filter.mpr ⟨Lines.mem_lines hholds h.feed h.carriage, by simp [h.nonempty]⟩

/-! ## What is kept -/

namespace Drain

/-- What was read and is not handed over yet. -/
def pending (drain : Drain json) : List (String × List json.Value) :=
  match drain.stage with
  | .reading _ found | .saving found => found
  | .saved | .clearing _ _ => []

def Holds (drain : Drain json) (c : Consumed json) : Prop :=
  ∃ messages, (c.channel, messages) ∈ drain.pending ∧ c.record ∈ messages

end Drain

namespace Device

/-- `msgcache_read` of the account gives the message. -/
def Readable (aead : Aead) (d : Device json) (c : Consumed json) : Prop :=
  ∃ key contents, asKey d.cacheSecret = some key ∧ d.logs c.user c.channel = some contents ∧
    c.record ∈ readLines aead json key none contents

def Stored (d : Device json) (c : Consumed json) : Prop :=
  c.record ∈ d.stored c.user c.channel

/-- The task is between the save and the end of the append. -/
def IsAppending (d : Device json) (c : Consumed json) : Prop :=
  ∃ a, d.appending = some a ∧ a.consumed = c

/-- Every message whose new state was saved is in the cache or in the history. -/
def NoneLost (aead : Aead) (d : Device json) : Prop :=
  ∀ c ∈ d.consumed, c.saved → d.IsAppending c ∨ d.Readable aead c ∨ d.Stored c

/-- No drain that goes on has read the file. -/
def unseen (d : Device json) (user channel : String) : Bool :=
  d.drains.all fun drain => drain.all fun drain =>
    !(drain.user = user && drain.seen.contains channel)

/-- The process does not end between a save and its append, nor the machine while a save
may have put the new state on the disk, and it leaves the logs as they are; after a save
the whole line is appended to a file with whole lines that no drain has read; the key of
the cache is read or left alone; and a drain reads the cache of its own account and deletes
what it has read. -/
def careful (aead : Aead) (mls : MlsCrypto) (d : Device json) : DeviceInput aead json → Bool
  | .pc input lost =>
      !d.pc.ends mls input || (lost.isEmpty && d.appending.all (!·.consumed.saved))
  | .decrypt save lost =>
      match d.pc.worker, d.handling with
      | .loaded user deviceState, some msg =>
          msg.channelId.all fun channelId => msg.encryptedContent.all fun encrypted =>
            (Base64.decode encrypted.toList).all fun ciphertext =>
              let command := workerDecrypt mls user deviceState (utf8 channelId) ciphertext save
              let pc := (command.run.run d.pc).2
              !d.pc.goesDown command ||
                (lost.isEmpty && !pc.onDisk aead user (d.pc.history.given user).length)
      | _, _ => true
  | .openLog fates =>
      fates.key.keeps d.cacheSecret && d.appending.all fun a => !a.consumed.saved ||
        (validChannelId a.consumed.channel && fates.createDir && fates.key.gives d.cacheSecret &&
          fates.opens && (msgcacheKey fates.key d.cacheSecret).1.all fun key =>
            (sealLine aead json key fates.nonce a.consumed.record).isSome)
  | .writeLog written =>
      match d.appending with
      | some ⟨consumed, some line⟩ => !consumed.saved || (line.length < written &&
          (d.logs consumed.user consumed.channel).any Lines.Complete &&
            d.unseen consumed.user consumed.channel)
      | _ => true
  | .read key => key.keeps d.cacheSecret
  | .readAll owner _ => d.pc.session = some owner
  | .readLog _ fates => fates.key.keeps d.cacheSecret
  | .removeLog n works =>
      match d.drains[n]? with
      | some (some drain) =>
          match drain.stage with
          | .clearing user (channel :: _) =>
              !works || (user = drain.user && drain.seen.contains channel)
          | _ => true
      | _ => true
  | .check _ | .saveMessages _ _ | .clearAll _ _ | .abandon _ => true

/-- The message's line stands in the log. -/
def Logged (aead : Aead) (d : Device json) (c : Consumed json) : Prop :=
  ∃ key line contents, asKey d.cacheSecret = some key ∧ d.logs c.user c.channel = some contents ∧
    IsLine aead json key line c.record ∧ Lines.Holds contents line

theorem Logged.readable (h : d.Logged aead c) : d.Readable aead c := by
  obtain ⟨key, line, contents, hkey, hlog, hline, hholds⟩ := h
  exact ⟨key, contents, hkey, hlog, hline.mem_read hholds⟩

/-- What a drain has read and not handed over is on its way. -/
structure DrainOk (d : Device json) (drain : Drain json) : Prop where
  same : drain.owner = drain.user
  found : ∀ c ∈ d.consumed, c.saved → ¬ d.IsAppending c → c.user = drain.user →
    c.channel ∈ drain.seen → drain.Holds c ∨ d.Stored c

structure Safe (aead : Aead) (d : Device json) : Prop where
  kept : ∀ c ∈ d.consumed, c.saved → d.IsAppending c ∨ d.Logged aead c ∨ d.Stored c
  writing : ∀ c line, d.appending = some ⟨c, some line⟩ → c.saved →
    ∃ key, asKey d.cacheSecret = some key ∧ IsLine aead json key line c.record
  drained : ∀ drain, some drain ∈ d.drains → d.DrainOk drain

theorem Safe.noneLost (h : d.Safe aead) : d.NoneLost aead := fun c hc hs =>
  (h.kept c hc hs).imp_right (Or.imp_left Logged.readable)

/-! ## One step -/

/-- A step of the others: the messages and the append stay, and what is there stays. -/
structure Still (aead : Aead) (d d' : Device json) : Prop where
  consumed : d'.consumed = d.consumed
  appending : ∀ c, c.saved → (d'.IsAppending c ↔ d.IsAppending c)
  logged : ∀ c, d.Logged aead c → d'.Logged aead c
  stored : ∀ c, d.Stored c → d'.Stored c

theorem Logged.congr (h : d.Logged aead c) (hlogs : d'.logs = d.logs)
    (hkey : ∀ key, asKey d.cacheSecret = some key → asKey d'.cacheSecret = some key) :
    d'.Logged aead c := by
  obtain ⟨key, line, contents, hk, hlog, hline, hholds⟩ := h
  exact ⟨key, line, contents, hkey key hk, hlogs ▸ hlog, hline, hholds⟩

theorem isAppending_congr (happending : d'.appending = d.appending) :
    d'.IsAppending c ↔ d.IsAppending c := by
  rw [IsAppending, IsAppending, happending]

variable {drain : Drain json}

theorem Still.drainOk (h : Still aead d d') (hok : d.DrainOk drain) : d'.DrainOk drain := by
  refine ⟨hok.same, fun c hc hs happ huser hseen => ?_⟩
  rw [h.consumed] at hc
  rw [h.appending c hs] at happ
  exact (hok.found c hc hs happ huser hseen).imp_right (h.stored c)

theorem Safe.still (hd : d.Safe aead) (h : Still aead d d')
    (hwriting : ∀ c line, d'.appending = some ⟨c, some line⟩ → c.saved →
      ∃ key, asKey d'.cacheSecret = some key ∧ IsLine aead json key line c.record)
    (hdrains : ∀ drain, some drain ∈ d'.drains → some drain ∈ d.drains ∨ d'.DrainOk drain) :
    d'.Safe aead := by
  refine ⟨fun c hc hs => ?_, hwriting, fun drain hdrain => ?_⟩
  · rw [h.consumed] at hc
    exact (hd.kept c hc hs).imp (h.appending c hs).mpr (Or.imp (h.logged c) (h.stored c))
  · exact (hdrains drain hdrain).elim (fun hold => h.drainOk (hd.drained drain hold)) id

/-- The append, the logs and the messages are as before. -/
theorem Still.of_eq (hconsumed : d'.consumed = d.consumed) (happending : d'.appending = d.appending)
    (hlogs : d'.logs = d.logs)
    (hkey : ∀ key, asKey d.cacheSecret = some key → asKey d'.cacheSecret = some key)
    (hstored : ∀ c, d.Stored c → d'.Stored c) : Still aead d d' :=
  ⟨hconsumed, fun _ _ => isAppending_congr happending, fun _ hlogged => hlogged.congr hlogs hkey,
    hstored⟩

theorem Safe.of_eq (hd : d.Safe aead) (hconsumed : d'.consumed = d.consumed)
    (happending : d'.appending = d.appending) (hlogs : d'.logs = d.logs)
    (hkey : ∀ key, asKey d.cacheSecret = some key → asKey d'.cacheSecret = some key)
    (hstored : ∀ c, d.Stored c → d'.Stored c)
    (hdrains : ∀ drain, some drain ∈ d'.drains → some drain ∈ d.drains ∨ d'.DrainOk drain) :
    d'.Safe aead := by
  refine hd.still (.of_eq hconsumed happending hlogs hkey hstored) (fun c line happ hs => ?_) hdrains
  obtain ⟨key, hk, hline⟩ := hd.writing c line (happending ▸ happ) hs
  exact ⟨key, hkey key hk, hline⟩

/-- The process ends with no saved message on its way. -/
theorem Safe.down (hd : d.Safe aead) (pc : Pc) (happ : ∀ c, c.saved → ¬ d.IsAppending c) :
    (d.down pc []).Safe aead := by
  refine ⟨fun c hc hs => .inr ?_, (fun _ _ h => nomatch h), fun _ h => nomatch h⟩
  exact ((hd.kept c hc hs).resolve_left (happ c hs)).imp (·.congr rfl fun _ => id) id

theorem Safe.consume (hd : d.Safe aead) (hnone : d.appending = none) (pc : Pc)
    (c₀ : Consumed json) :
    Safe aead { d with pc, consumed := d.consumed ++ [c₀], appending := some ⟨c₀, none⟩ } := by
  have hidle : ∀ c, ¬ d.IsAppending c := by
    rintro c ⟨a, ha, -⟩
    rw [hnone] at ha
    exact nomatch ha
  refine ⟨fun c hc hs => ?_, fun c line h => ?_, fun drain hdrain => ?_⟩
  · obtain hc | hc := List.mem_append.mp hc
    · exact .inr (((hd.kept c hc hs).resolve_left (hidle c)).imp (·.congr rfl fun _ => id) id)
    · exact .inl ⟨_, rfl, (List.mem_singleton.mp hc).symm⟩
  · exact absurd (Option.some.inj h) (by simp)
  · refine ⟨(hd.drained drain hdrain).same, fun c hc hs happ huser hseen => ?_⟩
    obtain hc | hc := List.mem_append.mp hc
    · exact (hd.drained drain hdrain).found c hc hs (hidle c) huser hseen
    · exact absurd ⟨_, rfl, (List.mem_singleton.mp hc).symm⟩ happ

/-! ### The append -/

theorem setLog_self (user channel : String) (contents : Option (List Char)) :
    (d.setLog user channel contents).logs user channel = contents := by
  simp [setLog]

variable {user channel owner : String}

theorem setLog_other {user' channel' : String} (contents : Option (List Char))
    (h : ¬ (user' = user ∧ channel' = channel)) :
    (d.setLog user channel contents).logs user' channel' = d.logs user' channel' := by
  by_cases hu : user' = user
  · subst hu
    simp [setLog, show channel' ≠ channel from fun hc => h ⟨rfl, hc⟩]
  · simp [setLog, hu]

/-- A file to which something is appended keeps its lines. -/
theorem Logged.appended (h : d.Logged aead c) (user channel : String) (more : List Char)
    (hlogs : d'.logs =
      (d.setLog user channel (some ((d.logs user channel).getD [] ++ more))).logs)
    (hkey : ∀ key, asKey d.cacheSecret = some key → asKey d'.cacheSecret = some key) :
    d'.Logged aead c := by
  obtain ⟨key, line, contents, hk, hlog, hline, hholds⟩ := h
  by_cases hsame : c.user = user ∧ c.channel = channel
  · obtain ⟨rfl, rfl⟩ := hsame
    refine ⟨key, line, contents ++ more, hkey key hk, ?_, hline, hholds.append⟩
    rw [hlogs, setLog_self, hlog, Option.getD_some]
  · refine ⟨key, line, contents, hkey key hk, ?_, hline, hholds⟩
    rw [hlogs, setLog_other _ hsame, hlog]

theorem openLog_cases (aead : Aead) (d : Device json) (consumed : Consumed json)
    (fates : AppendFates) :
    (∃ secret, (secret = d.cacheSecret ∨ secret = (msgcacheKey fates.key d.cacheSecret).2) ∧
      d.openLog aead consumed fates = { d with cacheSecret := secret, appending := none } ∧
      ¬ (validChannelId consumed.channel && fates.createDir && fates.opens &&
        (msgcacheKey fates.key d.cacheSecret).1.any fun key =>
          (sealLine aead json key fates.nonce consumed.record).isSome)) ∨
    ∃ key line, (msgcacheKey fates.key d.cacheSecret).1 = some key ∧
      sealLine aead json key fates.nonce consumed.record = some line ∧
      d.openLog aead consumed fates =
        { d.setLog consumed.user consumed.channel
            (some ((d.logs consumed.user consumed.channel).getD [])) with
          cacheSecret := (msgcacheKey fates.key d.cacheSecret).2
          appending := some ⟨consumed, some line⟩ } := by
  unfold openLog
  split
  · rename_i hpath
    refine .inl ⟨_, .inl rfl, rfl, ?_⟩
    cases hvalid : validChannelId consumed.channel <;> cases hdir : fates.createDir <;>
      simp_all
  dsimp only
  cases hkey : (msgcacheKey fates.key d.cacheSecret).1 with
  | none => exact .inl ⟨_, .inr rfl, rfl, by simp⟩
  | some key =>
      rw [Option.bind_some]
      cases hline : sealLine aead json key fates.nonce consumed.record with
      | none => exact .inl ⟨_, .inr rfl, rfl, by simp [hline]⟩
      | some line =>
          dsimp only
          split
          · exact .inr ⟨key, line, rfl, hline, rfl⟩
          · rename_i hopens
            exact .inl ⟨_, .inr rfl, rfl, by simp [hopens]⟩

variable {consumed : Consumed json}

theorem Safe.openLog (hd : d.Safe aead) {fates : AppendFates}
    (happ : d.appending = some ⟨consumed, none⟩) (hg : d.careful aead mls (.openLog fates)) :
    (d.openLog aead consumed fates).Safe aead := by
  simp only [careful, happ, Option.all_some, Bool.and_eq_true] at hg
  obtain ⟨hkeeps, hsaved⟩ := hg
  have hkey : ∀ key, asKey d.cacheSecret = some key →
      asKey (msgcacheKey fates.key d.cacheSecret).2 = some key := fun key hk => by
    rw [(msgcacheKey_keeps hkeeps hk).1, hk]
  obtain ⟨secret, hsecret, heq, hfails⟩ | ⟨key, line, hk, hline, heq⟩ :=
    openLog_cases aead d consumed fates
  · -- the append ends early, so the save had not put the new state on the disk
    have hunsaved : ∀ c, c.saved → ¬ d.IsAppending c := by
      rintro c hs ⟨a, ha, rfl⟩
      obtain rfl := Option.some.inj (happ.symm.trans ha)
      rw [hs] at hsaved
      simp only [Bool.not_true, Bool.false_or, Bool.and_eq_true] at hsaved
      obtain ⟨⟨⟨⟨hvalid, hdir⟩, hgives⟩, hopens⟩, hseal⟩ := hsaved
      obtain ⟨key, hk, -⟩ := msgcacheKey_gives hgives
      rw [hk] at hseal hfails
      simp only [Option.all_some, Option.any_some] at hseal hfails
      simp [hvalid, hdir, hopens, hseal] at hfails
    rw [heq]
    have hstable : ∀ key, asKey d.cacheSecret = some key → asKey secret = some key := by
      intro key hk
      obtain rfl | rfl := hsecret
      · exact hk
      · exact hkey key hk
    refine hd.still ⟨rfl, fun c hs => ?_, fun c hc => hc.congr rfl hstable, fun _ => id⟩
      (fun _ _ h => nomatch h) fun _ h => .inl h
    refine ⟨fun ⟨_, ha, _⟩ => ?_, fun hc => absurd hc (hunsaved c hs)⟩
    exact nomatch ha
  · rw [heq]
    refine hd.still ⟨rfl, fun c hs => ?_, fun c hc =>
      hc.appended consumed.user consumed.channel [] ?_ hkey, fun _ => id⟩ (fun c line' h hs => ?_) fun _ h => .inl h
    · constructor
      · rintro ⟨a, ha, rfl⟩
        obtain rfl := Option.some.inj ha
        exact ⟨_, happ, rfl⟩
      · rintro ⟨a, ha, rfl⟩
        obtain rfl := Option.some.inj (happ.symm.trans ha)
        exact ⟨_, rfl, rfl⟩
    · rw [List.append_nil]
    · obtain ⟨rfl, rfl⟩ : consumed = c ∧ line = line' := by simpa using h
      rw [hs] at hsaved
      simp only [Bool.not_true, Bool.false_or, Bool.and_eq_true] at hsaved
      obtain ⟨key', hk', hsecret⟩ := msgcacheKey_gives hsaved.1.1.2
      obtain rfl := Option.some.inj (hk.symm.trans hk')
      exact ⟨key, hsecret, sealLine_isLine hline⟩

theorem unseen_not_mem (h : d.unseen user channel) (hdrain : some drain ∈ d.drains)
    (huser : user = drain.user) : channel ∉ drain.seen := by
  have := List.all_eq_true.mp h _ hdrain
  simpa [huser] using this

theorem Safe.writeLog (hd : d.Safe aead) {written : ℕ}
    (happ : d.appending = some ⟨consumed, some line⟩)
    (hg : d.careful aead mls (.writeLog written)) :
    (d.writeLog consumed line written).Safe aead := by
  simp only [careful, happ] at hg
  have hsaved : ∀ c, c.saved → d.IsAppending c → c = consumed ∧ line.length < written ∧
      (d.logs c.user c.channel).any Lines.Complete ∧ d.unseen c.user c.channel := by
    rintro c hs ⟨a, ha, rfl⟩
    obtain rfl := Option.some.inj (happ.symm.trans ha)
    rw [hs] at hg
    simp only [Bool.not_true, Bool.false_or, Bool.and_eq_true, decide_eq_true_eq] at hg
    exact ⟨rfl, hg.1.1, hg.1.2, hg.2⟩
  have hfields : (d.writeLog consumed line written).consumed = d.consumed ∧
      (d.writeLog consumed line written).appending = none ∧
      (d.writeLog consumed line written).drains = d.drains ∧
      (d.writeLog consumed line written).stored = d.stored ∧
      (d.writeLog consumed line written).cacheSecret = d.cacheSecret := by
    unfold Device.writeLog
    dsimp only
    split <;> exact ⟨rfl, rfl, rfl, rfl, rfl⟩
  obtain ⟨hconsumed, hnone, hdrains, hstored, hsecret⟩ := hfields
  have hkey : ∀ key, asKey d.cacheSecret = some key →
      asKey (d.writeLog consumed line written).cacheSecret = some key := fun key hk => by
    rw [hsecret, hk]
  have hlogged : ∀ c, d.Logged aead c → (d.writeLog consumed line written).Logged aead c := by
    intro c hc
    cases hfile : d.logs consumed.user consumed.channel with
    | none => exact hc.congr (by simp [Device.writeLog, hfile]) hkey
    | some contents =>
        refine hc.appended consumed.user consumed.channel ((line ++ ['\n']).take written) ?_ hkey
        simp [Device.writeLog, hfile, setLog]
  refine ⟨fun c hc hs => .inr ?_, fun c line h => ?_, fun drain hdrain => ?_⟩
  · rw [hconsumed] at hc
    obtain happc | hlog | hstore := hd.kept c hc hs
    · -- the line that is written now
      obtain ⟨rfl, hwritten, hcomplete, -⟩ := hsaved c hs happc
      obtain ⟨key, hk, hline⟩ := hd.writing c line happ hs
      obtain ⟨contents, hfile, hcomplete⟩ := (Option.any_eq_true _ _).mp hcomplete
      refine .inl ⟨key, line, contents ++ (line ++ ['\n']), hkey key hk, ?_, hline,
        Lines.holds_appended hcomplete⟩
      have htake : (line ++ ['\n']).take written = line ++ ['\n'] :=
        List.take_of_length_le (by simpa using Nat.succ_le_of_lt hwritten)
      simp [Device.writeLog, hfile, htake, setLog]
    · exact .inl (hlogged c hlog)
    · refine .inr ?_
      rw [Stored, hstored]
      exact hstore
  · rw [hnone] at h
    exact nomatch h
  · rw [hdrains] at hdrain
    have hok := hd.drained drain hdrain
    refine ⟨hok.same, fun c hc hs _ huser hseen => ?_⟩
    rw [hconsumed] at hc
    rw [Stored, hstored]
    refine hok.found c hc hs (fun happc => ?_) huser hseen
    exact unseen_not_mem (hsaved c hs happc).2.2.2 hdrain huser hseen

/-! ### The drain -/

theorem DrainOk.congr (h : d.DrainOk drain) (hconsumed : d'.consumed = d.consumed)
    (happending : d'.appending = d.appending) (hstored : d'.stored = d.stored) : d'.DrainOk drain := by
  refine ⟨h.same, fun c hc hs happ huser hseen => ?_⟩
  rw [hconsumed] at hc
  rw [isAppending_congr happending] at happ
  rw [Stored, hstored]
  exact h.found c hc hs happ huser hseen

theorem Safe.setDrain (hd : d.Safe aead) (n : ℕ) (x : Option (Drain json))
    (hx : ∀ drain, x = some drain → d.DrainOk drain) : (d.setDrain n x).Safe aead := by
  refine hd.of_eq rfl rfl rfl (fun _ => id) (fun _ => id) fun drain hdrain => ?_
  refine (List.mem_or_eq_of_mem_set hdrain).imp_right fun heq => ?_
  exact (hx drain heq.symm).congr rfl rfl rfl

theorem Safe.endDrain (hd : d.Safe aead) (n : ℕ) : (d.setDrain n none).Safe aead :=
  hd.setDrain n none fun _ h => nomatch h

variable {rest : List String} {found : List (String × List json.Value)}

theorem afterRead_pending {stage : DrainStage json} (h : afterRead rest found = some stage)
    {seen : List String} : (Drain.mk owner user seen stage).pending = found := by
  unfold afterRead at h
  split at h
  · obtain rfl := Option.some.inj h
    rfl
  · split at h
    · obtain rfl := Option.some.inj h
      rfl
    · exact nomatch h

variable {listed : Option (List String)}

theorem Safe.readAll (hd : d.Safe aead) (hg : d.pc.session = some owner) :
    (d.readAll owner listed).Safe aead := by
  unfold Device.readAll
  split
  · rename_i user listed huser
    have howner : owner = user := by
      unfold signedInAccount at huser
      rw [hg] at huser
      dsimp only at huser
      split at huser
      · exact nomatch huser
      · unfold accountDir at huser
        split at huser
        · exact Except.ok.inj huser
        · exact nomatch huser
    refine hd.of_eq rfl rfl rfl (fun _ => id) (fun _ => id) fun drain hdrain => ?_
    refine (List.mem_append.mp hdrain).imp_right fun hdrain => ?_
    obtain ⟨stage, -, rfl⟩ := Option.map_eq_some_iff.mp (List.mem_singleton.mp hdrain).symm
    exact ⟨howner, fun _ _ _ _ _ hseen => absurd hseen List.not_mem_nil⟩
  · refine hd.of_eq rfl rfl rfl (fun _ => id) (fun _ => id) fun drain hdrain => ?_
    refine (List.mem_append.mp hdrain).imp_right fun hdrain => ?_
    exact nomatch List.mem_singleton.mp hdrain

/-- The stage of a drain after a file, with what it holds. -/
theorem DrainOk.next {drain drain' : Drain json} {rest : List String} {seen : List String}
    {found : List (String × List json.Value)} (hok : d.DrainOk drain)
    (hdrain : ((afterRead rest found).map fun stage => { drain with seen, stage }) = some drain')
    (hfound : ∀ c ∈ d.consumed, c.saved → ¬ d.IsAppending c → c.user = drain.user →
      c.channel ∈ seen → (∃ messages, (c.channel, messages) ∈ found ∧ c.record ∈ messages) ∨
        d.Stored c) : d.DrainOk drain' := by
  obtain ⟨stage, hstage, rfl⟩ := Option.map_eq_some_iff.mp hdrain
  refine ⟨hok.same, fun c hc hs happ huser hseen => ?_⟩
  rw [Drain.Holds, afterRead_pending hstage]
  exact hfound c hc hs happ huser hseen

variable {n : ℕ}

theorem Safe.readLog (hd : d.Safe aead) {fates : ReadFates} (hdrain : some drain ∈ d.drains)
    (hstage : drain.stage = .reading (channel :: rest) found)
    (hkeeps : fates.key.keeps d.cacheSecret) :
    (d.readLog aead n drain channel rest found fates).Safe aead := by
  have hok := hd.drained drain hdrain
  have hheld : ∀ c, drain.Holds c → ∃ messages, (c.channel, messages) ∈ found ∧
      c.record ∈ messages := by
    intro c hc
    rw [Drain.Holds, Drain.pending, hstage] at hc
    exact hc
  have hkey : ∀ key, asKey d.cacheSecret = some key →
      asKey (msgcacheKey fates.key d.cacheSecret).2 = some key := fun key hk => by
    rw [(msgcacheKey_keeps hkeeps hk).1, hk]
  unfold Device.readLog
  dsimp only
  split
  · exact hd.setDrain n _ fun drain' heq => DrainOk.next hok heq fun c hc hs happ huser hseen =>
      (hok.found c hc hs happ huser hseen).imp_left (hheld c)
  rename_i contents hcontents
  obtain ⟨-, hfile⟩ := Option.ite_none_right_eq_some.mp hcontents
  split
  · exact hd.endDrain n
  have hsecret : Safe aead { d with cacheSecret := (msgcacheKey fates.key d.cacheSecret).2 } :=
    hd.of_eq rfl rfl rfl hkey (fun _ => id) fun _ => .inl
  split
  · exact hsecret.endDrain n
  rename_i key hgiven
  refine hsecret.setDrain n _ fun drain' heq => ?_
  refine DrainOk.next (hsecret.drained drain hdrain) heq fun c hc hs happ huser hseen => ?_
  obtain hseen | hseen := List.mem_append.mp hseen
  · refine (hok.found c hc hs happ huser hseen).imp_left fun hc => ?_
    obtain ⟨messages, hmem, hrecord⟩ := hheld c hc
    refine ⟨messages, ?_, hrecord⟩
    split
    · exact hmem
    · exact List.mem_append_left _ hmem
  · -- the file that is read now
    obtain rfl := List.mem_singleton.mp hseen
    refine ((hd.kept c hc hs).resolve_left happ).imp_left fun hlogged => ?_
    obtain ⟨key', line, contents', hk, hlog, hline, hholds⟩ := hlogged
    rw [huser, hfile] at hlog
    obtain rfl := Option.some.inj hlog
    obtain rfl := (msgcacheKey_keeps hkeeps hk).2 key hgiven
    have hread := hline.mem_read hholds
    have hne : readLines aead json key none contents ≠ [] := List.ne_nil_of_mem hread
    rw [if_neg hne]
    exact ⟨_, List.mem_append_right _ (List.mem_singleton.mpr rfl), hread⟩

theorem Safe.saveMessages (hd : d.Safe aead) {messages : List json.Value}
    {rest : List (String × List json.Value)} (hdrain : some drain ∈ d.drains)
    (hstage : drain.stage = .saving ((channel, messages) :: rest)) :
    (d.saveMessages n drain channel messages rest).Safe aead := by
  have hok := hd.drained drain hdrain
  have hstored : ∀ c, d.Stored c → (d.saveMessages n drain channel messages rest).Stored c := by
    intro c hc
    rw [Stored] at hc ⊢
    by_cases hu : c.user = drain.owner
    · by_cases hch : c.channel = channel
      · rw [hu, hch] at hc ⊢
        simp [Device.saveMessages, hc]
      · rw [hu] at hc ⊢
        simp [Device.saveMessages, hch, hc]
    · simp [Device.saveMessages, hu, hc]
  refine hd.of_eq rfl rfl rfl (fun _ => id) hstored fun drain' hdrain' => ?_
  refine (List.mem_or_eq_of_mem_set hdrain').imp_right fun heq => ?_
  obtain rfl := Option.some.inj heq
  refine ⟨hok.same, fun c hc hs happ huser hseen => ?_⟩
  obtain hholds | hold := hok.found c hc hs happ huser hseen
  · obtain ⟨found, hmem, hrecord⟩ := hholds
    rw [Drain.pending, hstage] at hmem
    obtain heq | hmem := List.mem_cons.mp hmem
    · -- handed over now
      obtain ⟨hch, rfl⟩ := Prod.mk.inj heq
      refine .inr ?_
      rw [Stored, huser, ← hok.same, hch]
      simp [Device.saveMessages, hrecord]
    · refine .inl ⟨found, ?_, hrecord⟩
      have hne : rest ≠ [] := List.ne_nil_of_mem hmem
      simpa [Drain.pending, hne] using hmem
  · exact .inr (hstored c hold)

/-- A drain that holds nothing has handed over what it read. -/
theorem DrainOk.handed (hok : d.DrainOk drain) (hnone : drain.pending = []) (hc : c ∈ d.consumed)
    (hs : c.saved) (happ : ¬ d.IsAppending c) (huser : c.user = drain.user)
    (hseen : c.channel ∈ drain.seen) : d.Stored c := by
  refine (hok.found c hc hs happ huser hseen).resolve_left ?_
  rintro ⟨messages, hmem, -⟩
  rw [hnone] at hmem
  exact nomatch hmem

theorem DrainOk.goesOn {drain drain' : Drain json} (hok : d.DrainOk drain)
    (hnone : drain.pending = []) (stage : DrainStage json)
    (heq : some { drain with stage } = some drain') : d.DrainOk drain' := by
  obtain rfl := Option.some.inj heq
  exact ⟨hok.same, fun c hc hs happ huser hseen => .inr (hok.handed hnone hc hs happ huser hseen)⟩

theorem Safe.clearAll (hd : d.Safe aead) (hdrain : some drain ∈ d.drains)
    (hstage : drain.stage = .saved) : (d.clearAll n drain listed).Safe aead := by
  have hnone : drain.pending = [] := by rw [Drain.pending, hstage]
  unfold Device.clearAll
  split
  · refine hd.setDrain n _ fun drain' heq => ?_
    split at heq
    · exact nomatch heq
    · exact (hd.drained drain hdrain).goesOn hnone _ heq
  · exact hd.endDrain n

/-- The deleted file was read and handed over. -/
theorem Safe.deleted (hd : d.Safe aead) (hdrain : some drain ∈ d.drains)
    (hnone : drain.pending = []) (huser : user = drain.user) (hseen : channel ∈ drain.seen) :
    (d.setLog user channel none).Safe aead := by
  have hok := hd.drained drain hdrain
  refine ⟨fun c hc hs => ?_, hd.writing, fun drain' hdrain' =>
    (hd.drained drain' hdrain').congr rfl rfl rfl⟩
  by_cases happ : d.IsAppending c
  · exact .inl happ
  refine .inr ?_
  obtain hlogged | hstored := (hd.kept c hc hs).resolve_left happ
  · by_cases hsame : c.user = user ∧ c.channel = channel
    · obtain ⟨hu, rfl⟩ := hsame
      exact .inr (hok.handed hnone hc hs happ (hu.trans huser) hseen)
    · obtain ⟨key, line, contents, hk, hlog, hline, hholds⟩ := hlogged
      refine .inl ⟨key, line, contents, hk, ?_, hline, hholds⟩
      rw [setLog_other _ hsame, hlog]
  · exact .inr hstored

theorem Safe.removeLog (hd : d.Safe aead) {works : Bool} (hdrain : some drain ∈ d.drains)
    (hstage : drain.stage = .clearing user (channel :: rest))
    (hg : works → user = drain.user ∧ channel ∈ drain.seen) :
    (d.removeLog n drain user channel rest works).Safe aead := by
  have hnone : drain.pending = [] := by rw [Drain.pending, hstage]
  have hleft : Safe aead (if works then d.setLog user channel none else d) ∧
      some drain ∈ (if works then d.setLog user channel none else d).drains := by
    split
    · rename_i hworks
      exact ⟨hd.deleted hdrain hnone (hg hworks).1 (hg hworks).2, hdrain⟩
    · exact ⟨hd, hdrain⟩
  refine hleft.1.setDrain n _ fun drain' heq => ?_
  split at heq
  · exact nomatch heq
  · exact (hleft.1.drained drain hleft.2).goesOn hnone _ heq

/-! ### Steps -/

theorem Safe.withPc (hd : d.Safe aead) (pc : Pc) (handling : Option (Message json)) :
    Safe aead { d with pc, handling } :=
  hd.of_eq rfl rfl rfl (fun _ => id) (fun _ => id) fun _ => .inl

theorem Safe.decrypt (hd : d.Safe aead) (hnone : d.appending = none) {user : String}
    {deviceState : Bytes} {msg : Message json} {channelId encrypted : String}
    {save : SaveFates aead} {lost : List Loss}
    (hg : ∀ ciphertext, Base64.decode encrypted.toList = some ciphertext →
      let command := workerDecrypt mls user deviceState (utf8 channelId) ciphertext save
      d.pc.goesDown command → lost = [] ∧
        (command.run.run d.pc).2.onDisk aead user (d.pc.history.given user).length = false)
    (hstep : d.decrypt mls user deviceState msg channelId encrypted save lost = some d') :
    d'.Safe aead := by
  unfold Device.decrypt at hstep
  split at hstep
  · obtain ⟨pc, -, rfl⟩ := Option.map_eq_some_iff.mp hstep
    exact hd.withPc pc d.handling
  rename_i ciphertext hcipher
  dsimp only at hstep
  split at hstep
  · cases hstep
    exact hd.withPc _ d.handling
  split at hstep
  · -- the machine goes down in the save
    rename_i hdown
    obtain ⟨rfl, hdisk⟩ := hg ciphertext hcipher hdown
    cases hstep
    refine ⟨fun c hc hs => .inr ?_, (fun _ _ h => nomatch h), fun _ h => nomatch h⟩
    obtain hc | hc := List.mem_append.mp hc
    · refine ((hd.kept c hc hs).resolve_left ?_).imp (·.congr rfl fun _ => id) id
      rintro ⟨a, ha, -⟩
      rw [hnone] at ha
      exact nomatch ha
    · obtain rfl := List.mem_singleton.mp hc
      rw [hdisk] at hs
      exact nomatch hs
  · cases hstep
    exact hd.consume hnone _ _

theorem Safe.step (hd : d.Safe aead) {i : DeviceInput aead json} (hg : d.careful aead mls i)
    (hstep : d.step mls i = some d') : d'.Safe aead := by
  cases i with
  | pc input lost =>
      obtain ⟨-, hstep⟩ := Option.ite_none_left_eq_some.mp hstep
      obtain ⟨pc, -, rfl⟩ := Option.map_eq_some_iff.mp hstep
      split
      · rename_i hends
        simp only [careful, hends, Bool.not_true, Bool.false_or, Bool.and_eq_true,
          List.isEmpty_iff] at hg
        obtain ⟨rfl, hidle⟩ := hg
        refine hd.down pc ?_
        rintro c hs ⟨a, ha, rfl⟩
        rw [ha, Option.all_some, hs] at hidle
        exact nomatch hidle
      · exact hd.withPc pc d.handling
  | check msg =>
      obtain ⟨-, hstep⟩ := Option.ite_none_left_eq_some.mp hstep
      obtain ⟨pc, -, rfl⟩ := Option.map_eq_some_iff.mp hstep
      split
      · exact hd.withPc pc (some msg)
      · exact hd
  | decrypt save lost =>
      obtain ⟨happ, hstep⟩ := Option.ite_none_left_eq_some.mp hstep
      have hnone : d.appending = none := by simpa using happ
      split at hstep
      · rename_i user deviceState msg hworker hmsg
        obtain ⟨channelId, hchannel, hstep⟩ := Option.bind_eq_some_iff.mp hstep
        obtain ⟨encrypted, hencrypted, hstep⟩ := Option.bind_eq_some_iff.mp hstep
        refine hd.decrypt hnone (fun ciphertext hcipher hdown => ?_) hstep
        simp only [careful, hworker, hmsg, hchannel, hencrypted, hcipher, Option.all_some] at hg
        rw [hdown] at hg
        simpa using hg
      · exact nomatch hstep
  | openLog fates =>
      simp only [Device.step] at hstep
      split at hstep <;> cases hstep
      exact hd.openLog ‹_› hg
  | writeLog written =>
      simp only [Device.step] at hstep
      split at hstep <;> cases hstep
      exact hd.writeLog ‹_› hg
  | read key =>
      cases hstep
      refine hd.of_eq rfl rfl rfl (fun key' hk => ?_) (fun _ => id) fun _ => .inl
      rw [(msgcacheKey_keeps hg hk).1, hk]
  | readAll owner listed =>
      obtain ⟨-, hstep⟩ := Option.ite_none_right_eq_some.mp hstep
      cases hstep
      exact hd.readAll (of_decide_eq_true hg)
  | readLog n fates =>
      simp only [Device.step] at hstep
      split at hstep
      · rename_i drain hdrain
        split at hstep <;> cases hstep
        exact hd.readLog (List.mem_of_getElem? hdrain) ‹_› hg
      · exact nomatch hstep
  | saveMessages n saves =>
      simp only [Device.step] at hstep
      split at hstep
      · rename_i drain hdrain
        split at hstep <;> cases hstep
        split
        · exact hd.saveMessages (List.mem_of_getElem? hdrain) ‹_›
        · exact hd.endDrain n
      · exact nomatch hstep
  | clearAll n listed =>
      simp only [Device.step] at hstep
      split at hstep
      · rename_i drain hdrain
        split at hstep <;> cases hstep
        exact hd.clearAll (List.mem_of_getElem? hdrain) ‹_›
      · exact nomatch hstep
  | removeLog n works =>
      simp only [Device.step] at hstep
      split at hstep
      · rename_i drain hdrain
        split at hstep <;> cases hstep
        rename_i user channel rest hstage
        refine hd.removeLog (List.mem_of_getElem? hdrain) hstage fun hworks => ?_
        simpa [careful, hdrain, hstage, hworks] using hg
      · exact nomatch hstep
  | abandon n =>
      cases hstep
      exact hd.endDrain n

/-! ## Runs -/

/-- A start of the app, with any files and any history. -/
def start (pc : Pc) (logs : String → String → Option (List Char)) (cacheSecret : Option Bytes)
    (stored : String → String → List json.Value) : Device json where
  pc := pc.launch
  logs := logs
  cacheSecret := cacheSecret
  handling := none
  appending := none
  drains := []
  stored := stored
  consumed := []

theorem Safe.start (pc : Pc) (logs : String → String → Option (List Char))
    (cacheSecret : Option Bytes) (stored : String → String → List json.Value) :
    (Device.start pc logs cacheSecret stored).Safe aead :=
  ⟨(fun _ hc => nomatch hc), (fun _ _ h => nomatch h), fun _ h => nomatch h⟩

/-- In every run whose steps are careful, no message is lost. -/
theorem none_lost_in_order (aead : Aead) (mls : MlsCrypto) (json : Json) (pc : Pc)
    (logs : String → String → Option (List Char)) (cacheSecret : Option Bytes)
    (stored : String → String → List json.Value) {is : List (DeviceInput aead json)}
    {d : Device json}
    (h : (deviceSystem aead mls json).Guarded (fun d i => d.careful aead mls i)
      (Device.start pc logs cacheSecret stored) is d) : d.NoneLost aead :=
  (StepSystem.Guarded.invariant (P := fun d => Safe aead d)
    (fun _ _ _ hd hg hstep => hd.step hg hstep) h (.start pc logs cacheSecret stored)).noneLost

end Device

/-! ## A message that comes while the window is closed -/

/-- A JSON value as its text, of which each is written and read as it is. -/
def jsonText : Json where
  Value := Bytes
  null := utf8 "null"
  str s := utf8 "\"" ++ utf8 s ++ utf8 "\""
  object fields :=
    let texts := fields.map fun (name, value) => utf8 "\"" ++ utf8 name ++ utf8 "\":" ++ value
    utf8 "\x7b" ++ (utf8 ",").intercalate texts ++ utf8 "\x7d"
  toVec v := v
  fromSlice := some
  fromSlice_toVec _ := rfl

def cacheKeyFates : CacheKeyFates where
  fresh := ⟨List.replicate 32 2, rfl⟩

def appendFates : AppendFates where
  key := cacheKeyFates
  nonce := ⟨List.replicate 12 7, length_nonce⟩

def readFates : ReadFates where
  key := cacheKeyFates

def relayed : Message jsonText :=
  ⟨some "c", some "AA==", some (utf8 "1"), none, none, none, none, none, none⟩

/-- Account `a` saves its state and its window is closed. -/
def closesWindow : List (DeviceInput tagOnly jsonText) :=
  [.pc (.session (some "a")) [], .pc (.loadState {} (fatesOf {}) {}) [],
    .pc (.saveState (stateOf 1 97) true (fatesOf {})) [],
    .pc (.handoffToBackground (fatesOf {})) []]

/-- The task up to its save. -/
def decrypts : List (DeviceInput tagOnly jsonText) :=
  [.check relayed, .pc .workerEnter [], .pc (.workerLoad {} (fatesOf {}) {}) [],
    .decrypt (fatesOf {}) []]

def cachesAndDrains : List (DeviceInput tagOnly jsonText) :=
  closesWindow ++ decrypts ++
    [.openLog appendFates, .writeLog 1000, .readAll "a" (some ["c"]), .readLog 0 readFates,
      .saveMessages 0 true, .clearAll 0 (some ["c"]), .removeLog 0 true]

def newDevice : Device jsonText :=
  .start emptyPc (fun _ _ => none) none fun _ _ => []

namespace Device

/-- A drain can take the message over. -/
theorem Logged.drains (h : d.Logged aead c) (mls : MlsCrypto) (fates : ReadFates)
    (hdrains : d.drains = []) (hattempted : d.pc.migrationAttempted) (hsession : d.pc.session = some c.user)
    (haccount : signedInAccount d.pc = .ok c.user) (hfound : fates.found) (hreads : fates.reads)
    (hentry : fates.key.entry) (hget : fates.key.get) :
    ∃ d', ((deviceSystem aead mls json).restrict (careful aead mls)).Run d
      [.readAll c.user (some [c.channel]), .readLog 0 fates, .saveMessages 0 true,
        .clearAll 0 (some [c.channel]), .removeLog 0 true] d' := by
  obtain ⟨key, contents, hkey, hlog, hmem⟩ := h.readable
  have hlisting (d' : Device json) (hlogs : d'.logs = d.logs) :
      d'.listing c.user [c.channel] = [c.channel] := by
    simp [listing, hlogs, hlog]
  have hcache : msgcacheKey fates.key d.cacheSecret = (some key, d.cacheSecret) := by
    simp [msgcacheKey, hentry, hget, hkey]
  have hkeeps : fates.key.keeps d.cacheSecret := by
    simp [CacheKeyFates.keeps, hget]
  have hmessages : readLines aead json key none contents ≠ [] := List.ne_nil_of_mem hmem
  let read (stage : DrainStage json) (seen : List String) : Drain json := ⟨c.user, c.user, seen, stage⟩
  let messages := readLines aead json key none contents
  let d₁ := { d with drains := [some (read (.reading [c.channel] []) [])] }
  let d₂ := { d with drains := [some (read (.saving [(c.channel, messages)]) [c.channel])] }
  let d₃ := d₂.saveMessages 0 (read (.saving [(c.channel, messages)]) [c.channel]) c.channel messages []
  let d₄ := { d₃ with drains := [some (read (.clearing c.user [c.channel]) [c.channel])] }
  let d₅ := d₄.removeLog 0 (read (.clearing c.user [c.channel]) [c.channel]) c.user c.channel [] true
  refine ⟨d₅, .cons (t := d₁) ?_ (.cons (t := d₂) ?_ (.cons (t := d₃) ?_ (.cons (t := d₄) ?_
    (.cons (t := d₅) ?_ (.nil _)))))⟩
  · have hstart : (deviceSystem aead mls json).step d (.readAll c.user (some [c.channel])) =
        some d₁ := by
      change (if d.pc.migrationAttempted then some (d.readAll _ _) else none) = some d₁
      simp [hattempted, readAll, haccount, hlisting, hdrains, afterRead, d₁, read]
    exact StepSystem.restrict_step.mpr ⟨decide_eq_true hsession, hstart⟩
  · have hread : (deviceSystem aead mls json).step d₁ (.readLog 0 fates) = some d₂ := by
      change some (d₁.readLog aead 0 _ c.channel [] [] fates) = some d₂
      simp [readLog, afterRead, setDrain, hfound, hlog, hreads, hcache, hmessages, d₁, d₂, read,
        messages]
    exact StepSystem.restrict_step.mpr ⟨hkeeps, hread⟩
  · exact StepSystem.restrict_step.mpr ⟨rfl, rfl⟩
  · have hclear : (deviceSystem aead mls json).step d₃ (.clearAll 0 (some [c.channel])) =
        some d₄ := by
      change some (d₃.clearAll 0 _ (some [c.channel])) = some d₄
      simp [clearAll, haccount, hlisting, saveMessages, setDrain, d₂, d₃, d₄, read]
    exact StepSystem.restrict_step.mpr ⟨rfl, hclear⟩
  · have hcareful : careful aead mls d₄ (.removeLog 0 true) = true := by
      simp [careful, d₄, read]
    exact StepSystem.restrict_step.mpr ⟨hcareful, rfl⟩

theorem drained_isSome : (((deviceSystem tagOnly countedStates jsonText).restrict
    (careful tagOnly countedStates)).exec newDevice cachesAndDrains).isSome := by
  let M := (deviceSystem tagOnly countedStates jsonText).restrict (careful tagOnly countedStates)
  let d := (M.exec newDevice (closesWindow ++ decrypts ++ [.openLog appendFates, .writeLog 1000])).get
    (by decide +kernel)
  have hd : M.Run newDevice _ d := StepSystem.exec_eq_some_iff.mp (Option.some_get _).symm
  have hfacts : (d.consumed.map fun c => (c.user, c.channel, c.saved)) = [("a", "c", true)] ∧
      d.appending.isNone ∧ (d.stored "a" "c").length = 0 ∧ d.drains.length = 0 ∧
      d.pc.migrationAttempted ∧ d.pc.session = some "a" ∧
      (signedInAccount d.pc).toOption = some "a" := by
    decide +kernel
  obtain ⟨hconsumed, happ, hstored, hdrains, hattempted, hsession, haccount⟩ := hfacts
  obtain ⟨c, hc, hfields⟩ : ∃ c, c ∈ d.consumed ∧ (c.user, c.channel, c.saved) = ("a", "c", true) :=
    List.mem_map.mp (hconsumed ▸ List.mem_singleton.mpr rfl)
  obtain ⟨huser, hchannel, hs⟩ : c.user = "a" ∧ c.channel = "c" ∧ c.saved = true := by
    simpa using hfields
  have hsafe : d.Safe tagOnly :=
    StepSystem.Guarded.invariant (fun _ _ _ hd hg hstep => hd.step hg hstep) hd.guarded (.start ..)
  have hlogged : d.Logged tagOnly c := by
    obtain ⟨a, ha, -⟩ | hlogged | hstored' := hsafe.kept c hc hs
    · rw [ha] at happ
      exact nomatch happ
    · exact hlogged
    · rw [Stored, huser, hchannel, List.length_eq_zero_iff.mp hstored] at hstored'
      exact nomatch hstored'
  have haccount : signedInAccount d.pc = .ok c.user := by
    cases hok : signedInAccount d.pc with
    | error _ => simp [hok, Except.toOption] at haccount
    | ok user => simpa [hok, Except.toOption, huser] using haccount
  obtain ⟨d', hdrain⟩ := hlogged.drains countedStates readFates
    (List.length_eq_zero_iff.mp hdrains) hattempted (by rw [hsession, huser]) haccount rfl rfl rfl rfl
  rw [huser, hchannel] at hdrain
  exact Option.isSome_iff_exists.mpr ⟨d', StepSystem.exec_eq_some_iff.mpr (hd.append hdrain)⟩

theorem none_lost_in_order_drained :
    NoneLost tagOnly ((((deviceSystem tagOnly countedStates jsonText).restrict
      (careful tagOnly countedStates)).exec newDevice cachesAndDrains).get drained_isSome) :=
  none_lost_in_order tagOnly countedStates jsonText emptyPc (fun _ _ => none) none (fun _ _ => [])
    (StepSystem.exec_eq_some_iff.mp (Option.some_get _).symm).guarded

/-- The log cannot be opened after the save. -/
def failsToAppend : List (DeviceInput tagOnly jsonText) :=
  closesWindow ++ decrypts ++ [.openLog { appendFates with opens := false }]

/-- The new state is on the disk, and the message is nowhere. -/
theorem append_error_loses :
    ∃ d, (deviceSystem tagOnly countedStates jsonText).Run newDevice failsToAppend d ∧
      ¬ d.NoneLost tagOnly := by
  let d := ((deviceSystem tagOnly countedStates jsonText).exec newDevice failsToAppend).get
    (by decide +kernel)
  have hfacts : (d.consumed.map fun c => (c.user, c.channel, c.saved)) = [("a", "c", true)] ∧
      d.appending.isNone ∧ d.logs "a" "c" = none ∧ (d.stored "a" "c").length = 0 := by
    decide +kernel
  obtain ⟨hconsumed, happ, hlog, hstored⟩ := hfacts
  refine ⟨d, StepSystem.exec_eq_some_iff.mp (Option.some_get _).symm, fun h => ?_⟩
  obtain ⟨c, hc, hfields⟩ : ∃ c, c ∈ d.consumed ∧ (c.user, c.channel, c.saved) = ("a", "c", true) :=
    List.mem_map.mp (hconsumed ▸ List.mem_singleton.mpr rfl)
  obtain ⟨huser, hchannel, hs⟩ : c.user = "a" ∧ c.channel = "c" ∧ c.saved = true := by
    simpa using hfields
  obtain ⟨a, ha, -⟩ | ⟨key, contents, -, hlog', -⟩ | hstored' := h c hc hs
  · rw [ha] at happ
    exact nomatch happ
  · rw [huser, hchannel, hlog] at hlog'
    exact nomatch hlog'
  · rw [Stored, huser, hchannel, List.length_eq_zero_iff.mp hstored] at hstored'
    exact nomatch hstored'

end Device

end SpecterComs.MlsStore
