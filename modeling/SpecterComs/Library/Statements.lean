import SpecterComs.Library.Async

/-! # Programs of database statements

A handler runs statements one after the other until it answers or is refused. Run alone it sees
its own writes in the database it started from. Between two statements of a transaction others
may commit: every statement then sees the committed rows of that moment under the writes of its
own transaction.
-/

namespace SpecterComs

/-- A statement: what it writes, and what it answers, on the rows it sees. -/
structure Statement (σ : Type) where
  Result : Type
  write : σ → σ
  answer : σ → Result

abbrev Program (σ α : Type) := Async (Statement σ) Statement.Result α

/-- A program that may be refused. -/
abbrev Handler (σ ε α : Type) := ExceptT ε (Async (Statement σ) Statement.Result) α

variable {σ ε α β : Type}

namespace Handler

def ofStatement (s : Statement σ) : Handler σ ε s.Result :=
  ExceptT.lift (Async.perform s)

def select (answer : σ → α) : Handler σ ε α :=
  ofStatement { Result := α, write := id, answer := answer }

def update (write : σ → σ) : Handler σ ε Unit :=
  ofStatement { Result := Unit, write := write, answer := fun _ => () }

/-- A write with an answer from the rows before it. -/
def updateReturning (write : σ → σ) (answer : σ → α) : Handler σ ε α :=
  ofStatement { Result := α, write := write, answer := answer }

def refuse (e : ε) : Handler σ ε α :=
  throw e

def require (c : Bool) (e : ε) : Handler σ ε Unit :=
  if c then pure () else refuse e

def found (a : Option α) (e : ε) : Handler σ ε α :=
  match a with
  | some a => pure a
  | none => refuse e

end Handler

/-! ## Run alone -/

namespace Program

def exec : Program σ α → σ → α × σ
  | .ret a, db => (a, db)
  | .op s k, db => exec (k (s.answer db)) (s.write db)

theorem exec_bind (p : Program σ α) (f : α → Program σ β) (db : σ) :
    exec (p >>= f) db = exec (f (exec p db).1) (exec p db).2 := by
  induction p generalizing db with
  | ret a => rfl
  | op s k ih => exact ih (s.answer db) (s.write db)

end Program

namespace Handler

/-- A handler whose statements make one transaction. -/
def transaction (h : Handler σ ε ε) (db : σ) : ε × σ :=
  match Program.exec h.run db with
  | (.ok r, db') => (r, db')
  | (.error e, _) => (e, db)

/-- A handler whose statements commit one by one. -/
def autocommit (h : Handler σ ε ε) (db : σ) : ε × σ :=
  match Program.exec h.run db with
  | (.ok r, db') => (r, db')
  | (.error e, db') => (e, db')

end Handler

namespace Handler

variable {db : σ}

@[simp] theorem exec_ret {a : α} : Program.exec (.ret a) db = (a, db) := rfl

theorem autocommit_snd (h : Handler σ ε ε) (db : σ) :
    (h.autocommit db).2 = (Program.exec h.run db).2 := by
  unfold autocommit
  split <;> simp [*]

@[simp] theorem exec_pure {a : α} :
    Program.exec (pure a : Handler σ ε α).run db = (.ok a, db) := rfl

@[simp] theorem exec_refuse {e : ε} :
    Program.exec (refuse e : Handler σ ε α).run db = (.error e, db) := rfl

variable {answer : σ → α} {f : α → Handler σ ε β}

@[simp] theorem exec_select_bind :
    Program.exec (select answer >>= f).run db = Program.exec (f (answer db)).run db := rfl

variable {write : σ → σ}

@[simp] theorem exec_update_bind {f : Unit → Handler σ ε β} :
    Program.exec (update write >>= f).run db = Program.exec (f ()).run (write db) := rfl

@[simp] theorem exec_updateReturning_bind :
    Program.exec (updateReturning write answer >>= f).run db =
      Program.exec (f (answer db)).run (write db) := rfl

@[simp] theorem exec_require_bind {c : Bool} {e : ε} {f : Unit → Handler σ ε β} :
    Program.exec (require c e >>= f).run db =
      if c then Program.exec (f ()).run db else (.error e, db) := by
  cases c <;> rfl

end Handler

namespace Handler

@[simp] theorem exec_found_bind {a : Option α} {e : ε} {f : α → Handler σ ε β} {db : σ} :
    Program.exec (found a e >>= f).run db =
      match a with
      | some x => Program.exec (f x).run db
      | none => (.error e, db) := by
  cases a <;> rfl

end Handler

theorem Handler.exec_run_bind (h : Handler σ ε α) (f : α → Handler σ ε β) (db : σ) :
    Program.exec (h >>= f).run db =
      match Program.exec h.run db with
      | (.ok a, db') => Program.exec (f a).run db'
      | (.error e, db') => (.error e, db') := by
  change Program.exec (h.run >>= fun r => _) db = _
  rw [Program.exec_bind]
  rcases hexec : Program.exec h.run db with ⟨_ | a, db'⟩ <;> rfl

/-! ## Whether a handler answers -/

namespace Handler

/-- Run alone, the handler is not refused. -/
def answers (h : Handler σ ε α) (db : σ) : Bool :=
  (Program.exec h.run db).1.isOk

variable {db : σ}

@[simp] theorem answers_pure {a : α} : (pure a : Handler σ ε α).answers db = true := rfl

variable {answer : σ → α} {f : α → Handler σ ε β}

@[simp] theorem answers_select_bind :
    (select answer >>= f).answers db = (f (answer db)).answers db := rfl

variable {write : σ → σ}

@[simp] theorem answers_update_bind {f : Unit → Handler σ ε β} :
    (update write >>= f).answers db = (f ()).answers (write db) := rfl

@[simp] theorem answers_updateReturning_bind :
    (updateReturning write answer >>= f).answers db = (f (answer db)).answers (write db) := rfl

@[simp] theorem answers_require_bind {c : Bool} {e : ε} {f : Unit → Handler σ ε β} :
    (require c e >>= f).answers db = (c && (f ()).answers db) := by
  cases c <;> rfl

@[simp] theorem answers_found_bind {a : Option α} {e : ε} :
    (found a e >>= f).answers db = a.any fun x => (f x).answers db := by
  cases a <;> rfl

variable {h : Handler σ ε α}

theorem answers_bind {a : α} {db' : σ} (hh : Program.exec h.run db = (.ok a, db')) :
    (h >>= f).answers db = (f a).answers db' := by
  rw [answers, exec_run_bind, hh]
  rfl

theorem answers_bind_error {e : ε} {db' : σ} (hh : Program.exec h.run db = (.error e, db')) :
    (h >>= f).answers db = false := by
  rw [answers, exec_run_bind, hh]
  rfl

/-- A refused transaction leaves nothing. -/
theorem transaction_snd_of_not_answers {h : Handler σ ε ε} (hh : h.answers db = false) :
    (h.transaction db).2 = db := by
  unfold answers at hh
  unfold transaction
  rcases hexec : Program.exec h.run db with ⟨e | r, db'⟩
  · rfl
  · rw [hexec] at hh
    cases hh

/-- One that answers leaves what it wrote. -/
theorem transaction_snd_of_answers {h : Handler σ ε ε} (hh : h.answers db = true) :
    (h.transaction db).2 = (Program.exec h.run db).2 := by
  unfold answers at hh
  unfold transaction
  rcases hexec : Program.exec h.run db with ⟨e | r, db'⟩
  · rw [hexec] at hh
    cases hh
  · rfl

end Handler

/-! ## What every statement keeps -/

namespace Handler

/-- Whatever the handler writes before it answers or is refused keeps `P`. -/
def Keeps (P : σ → Prop) (h : Handler σ ε α) : Prop :=
  ∀ db, P db → P (Program.exec h.run db).2

variable {P : σ → Prop}

theorem Keeps.pure (a : α) : Keeps P (pure a : Handler σ ε α) := fun _ h => h

theorem Keeps.select (answer : σ → α) : Keeps P (select answer : Handler σ ε α) := fun _ h => h

variable {write : σ → σ}

theorem Keeps.update (hwrite : ∀ db, P db → P (write db)) :
    Keeps P (update write : Handler σ ε Unit) := hwrite

theorem Keeps.updateReturning {answer : σ → α} (hwrite : ∀ db, P db → P (write db)) :
    Keeps P (updateReturning write answer : Handler σ ε α) := hwrite

theorem Keeps.require (c : Bool) (e : ε) : Keeps P (require c e : Handler σ ε Unit) := by
  cases c <;> exact fun _ h => h

theorem Keeps.found (a : Option α) (e : ε) : Keeps P (found a e : Handler σ ε α) := by
  cases a <;> exact fun _ h => h

theorem Keeps.bind {h : Handler σ ε α} {f : α → Handler σ ε β} (hh : Keeps P h)
    (hf : ∀ a, Keeps P (f a)) : Keeps P (h >>= f) := by
  intro db hdb
  have hdb' := hh db hdb
  rw [exec_run_bind]
  rcases hexec : Program.exec h.run db with ⟨_ | a, db'⟩
  · rwa [hexec] at hdb'
  · rw [hexec] at hdb'
    exact hf a db' hdb'

theorem Keeps.ite {c : Prop} [Decidable c] {h h' : Handler σ ε α} (hh : Keeps P h)
    (hh' : Keeps P h') : Keeps P (if c then h else h') := by
  split
  · exact hh
  · exact hh'

theorem Keeps.forM {l : List β} {f : β → Handler σ ε PUnit} (hf : ∀ b ∈ l, Keeps P (f b)) :
    Keeps P (l.forM f) := by
  induction l with
  | nil => exact Keeps.pure _
  | cons b l ih =>
      change Keeps P (f b >>= fun _ => l.forM f)
      exact (hf b (by simp)).bind fun _ => ih fun b' hb' => hf b' (by simp [hb'])

theorem Keeps.transaction {h : Handler σ ε ε} (hh : Keeps P h) {db : σ} (hdb : P db) :
    P (h.transaction db).2 := by
  have hdb' := hh db hdb
  unfold Handler.transaction
  rcases hexec : Program.exec h.run db with ⟨_ | a, db'⟩
  · exact hdb
  · rwa [hexec] at hdb'

theorem Keeps.autocommit {h : Handler σ ε ε} (hh : Keeps P h) {db : σ} (hdb : P db) :
    P (h.autocommit db).2 := by
  rw [autocommit_snd]
  exact hh db hdb

end Handler

/-! ## Triples -/

namespace Handler

/-- From rows with `P` the handler, run alone, ends with `Q` unless it is refused. -/
def Triple (P : σ → Prop) (h : Handler σ ε α) (Q : α → σ → Prop) : Prop :=
  ∀ db, P db → ∀ a, (Program.exec h.run db).1 = .ok a → Q a (Program.exec h.run db).2

section Triple

variable {P P' : σ → Prop} {Q Q' : α → σ → Prop} {R : β → σ → Prop}

theorem Triple.pure {a : α} (h : ∀ db, P db → Q a db) :
    Triple P (pure a : Handler σ ε α) Q := by
  intro db hdb b hb
  obtain rfl : a = b := Except.ok.inj hb
  exact h db hdb

variable {answer : σ → α}

theorem Triple.select (h : ∀ db, P db → Q (answer db) db) :
    Triple P (select answer : Handler σ ε α) Q := by
  intro db hdb b hb
  obtain rfl : answer db = b := Except.ok.inj hb
  exact h db hdb

variable {write : σ → σ}

theorem Triple.update {Q : Unit → σ → Prop} (h : ∀ db, P db → Q () (write db)) :
    Triple P (update write : Handler σ ε Unit) Q :=
  fun db hdb _ _ => h db hdb

theorem Triple.updateReturning (h : ∀ db, P db → Q (answer db) (write db)) :
    Triple P (updateReturning write answer : Handler σ ε α) Q := by
  intro db hdb b hb
  obtain rfl : answer db = b := Except.ok.inj hb
  exact h db hdb

theorem Triple.require {c : Bool} {e : ε} {Q : Unit → σ → Prop}
    (h : ∀ db, P db → c = true → Q () db) : Triple P (require c e : Handler σ ε Unit) Q := by
  intro db hdb b hb
  cases c with
  | true => exact h db hdb rfl
  | false => cases hb

theorem Triple.found {a : Option α} {e : ε} (h : ∀ db x, P db → a = some x → Q x db) :
    Triple P (found a e : Handler σ ε α) Q := by
  intro db hdb b hb
  cases a with
  | none => cases hb
  | some x =>
      obtain rfl : x = b := Except.ok.inj hb
      exact h db x hdb rfl

variable {f : α → Handler σ ε β} {h : Handler σ ε α}

theorem Triple.bind (hh : Triple P h Q) (hf : ∀ a, Triple (Q a) (f a) R) : Triple P (h >>= f) R := by
  intro db hdb b hb
  rw [exec_run_bind] at hb ⊢
  rcases hexec : Program.exec h.run db with ⟨e | a, db'⟩
  · rw [hexec] at hb
    cases hb
  · rw [hexec] at hb
    have hQ := hh db hdb a (by rw [hexec])
    rw [hexec] at hQ
    exact hf a db' hQ b hb

/-- A step that keeps `P`, and then the rest. -/
theorem Triple.seq (hh : Triple P h fun _ => P) (hf : ∀ a, Triple P (f a) R) : Triple P (h >>= f) R :=
  hh.bind hf

/-- A triple may be proved for each database it starts from. -/
theorem Triple.each (hh : ∀ db₀, P db₀ → Triple (fun db => db = db₀) h Q) : Triple P h Q :=
  fun db hdb => hh db hdb db rfl

theorem Keeps.triple (hh : Keeps P h) : Triple P h fun _ => P :=
  fun db hdb _ _ => hh db hdb

theorem Triple.weaken (hh : Triple P h Q) (hP : ∀ db, P' db → P db)
    (hQ : ∀ a db, Q a db → Q' a db) : Triple P' h Q' :=
  fun db hdb a ha => hQ a _ (hh db (hP db hdb) a ha)

theorem Triple.forM {l : List β} {f : β → Handler σ ε PUnit}
    (hf : ∀ b ∈ l, Triple P (f b) fun _ => P) : Triple P (l.forM f) fun _ => P := by
  induction l with
  | nil => exact Triple.pure fun _ h => h
  | cons b l ih =>
      change Triple P (f b >>= fun _ => l.forM f) fun _ => P
      exact (hf b (by simp)).bind fun _ => ih fun b' hb' => hf b' (by simp [hb'])

/-- A transaction leaves what it started from, or what the handler ensures. -/
theorem Triple.transaction {h : Handler σ ε ε} {Q : ε → σ → Prop} (hh : Triple P h Q) {db : σ}
    (hdb : P db) : (h.transaction db).2 = db ∨ ∃ r, Q r (h.transaction db).2 := by
  have hQ := hh db hdb
  unfold Handler.transaction
  rcases hexec : Program.exec h.run db with ⟨e | r, db'⟩
  · exact .inl rfl
  · rw [hexec] at hQ
    exact .inr ⟨r, hQ r rfl⟩

/-- A transaction that answers leaves what the handler ensures. -/
theorem Triple.answered {h : Handler σ ε ε} {Q : σ → Prop} (hh : Triple P h fun _ => Q) {db : σ}
    (hdb : P db) (hanswers : h.answers db = true) : Q (h.transaction db).2 := by
  have hQ := hh db hdb
  unfold answers at hanswers
  unfold Handler.transaction
  rcases hexec : Program.exec h.run db with ⟨e | r, db'⟩
  · rw [hexec] at hanswers
    cases hanswers
  · rw [hexec] at hQ
    exact hQ r rfl

end Triple

end Handler

/-! ## Run among others -/

/-- What holds of the answer, the snapshots and the writes of a program, whatever the committed
rows are at each of its statements. -/
def Snapshots (Q : α → List σ → (σ → σ) → Prop) (seen : List σ) (w : σ → σ) :
    Program σ α → Prop
  | .ret a => Q a seen w
  | .op s k => ∀ db, Snapshots Q (db :: seen) (s.write ∘ w) (k (s.answer (w db)))

variable {Q Q' : Except ε α → List σ → (σ → σ) → Prop} {R : Except ε β → List σ → (σ → σ) → Prop}
  {seen : List σ} {w : σ → σ}

/-- Run alone, a program sees one snapshot. -/
theorem Snapshots.exec {Q : α → List σ → (σ → σ) → Prop} {p : Program σ α} (db : σ)
    (h : Snapshots Q seen w p) (hseen : ∀ d ∈ seen, d = db) :
    ∃ seen' w', (∀ d ∈ seen', d = db) ∧ Q (Program.exec p (w db)).1 seen' w' ∧
      (Program.exec p (w db)).2 = w' db := by
  induction p generalizing seen w with
  | ret a => exact ⟨seen, w, hseen, h, rfl⟩
  | op s k ih =>
      apply ih (s.answer (w db)) (h db)
      intro d hd
      rcases List.mem_cons.mp hd with rfl | hd
      · rfl
      · exact hseen d hd

variable {p : Program σ α}

theorem Snapshots.weaken {Q Q' : α → List σ → (σ → σ) → Prop} (h : Snapshots Q seen w p)
    (hQ : ∀ a seen w, Q a seen w → Q' a seen w) : Snapshots Q' seen w p := by
  induction p generalizing seen w with
  | ret a => exact hQ a seen w h
  | op s k ih => exact fun db => ih _ (h db)

theorem Snapshots.bind {Q : α → List σ → (σ → σ) → Prop} {R : β → List σ → (σ → σ) → Prop}
    {f : α → Program σ β} (h : Snapshots Q seen w p)
    (hf : ∀ a seen' w', Q a seen' w' → Snapshots R seen' w' (f a)) :
    Snapshots R seen w (p >>= f) := by
  induction p generalizing seen w with
  | ret a => exact hf a seen w h
  | op s k ih => exact fun db => ih _ (h db)

namespace Handler

/-- What holds of a handler whatever is committed between its statements. -/
def Spec (Q : Except ε α → List σ → (σ → σ) → Prop) (seen : List σ) (w : σ → σ)
    (h : Handler σ ε α) : Prop :=
  Snapshots Q seen w h.run

variable {answer : σ → α} {f : α → Handler σ ε β}

@[simp] theorem spec_select_bind :
    Spec R seen w (select answer >>= f) ↔ ∀ db, Spec R (db :: seen) w (f (answer (w db))) := Iff.rfl

variable {write : σ → σ}

@[simp] theorem spec_update_bind {f : Unit → Handler σ ε β} :
    Spec R seen w (update write >>= f) ↔ ∀ db, Spec R (db :: seen) (write ∘ w) (f ()) := Iff.rfl

@[simp] theorem spec_updateReturning_bind :
    Spec R seen w (updateReturning write answer >>= f) ↔
      ∀ db, Spec R (db :: seen) (write ∘ w) (f (answer (w db))) := Iff.rfl

@[simp] theorem spec_require_bind {c : Bool} {e : ε} {f : Unit → Handler σ ε β} :
    Spec R seen w (require c e >>= f) ↔
      (c = true → Spec R seen w (f ())) ∧ (c = false → R (.error e) seen w) := by
  cases c with
  | true => exact ⟨fun h => ⟨fun _ => h, nofun⟩, fun h => h.1 rfl⟩
  | false => exact ⟨fun h => ⟨nofun, fun _ => h⟩, fun h => h.2 rfl⟩

@[simp] theorem spec_found_bind {a : Option α} {e : ε} :
    Spec R seen w (found a e >>= f) ↔
      (∀ x, a = some x → Spec R seen w (f x)) ∧ (a = none → R (.error e) seen w) := by
  cases a with
  | none => exact ⟨fun h => ⟨nofun, fun _ => h⟩, fun h => h.2 rfl⟩
  | some x => exact ⟨fun h => ⟨fun y hy => by cases hy; exact h, nofun⟩, fun h => h.1 x rfl⟩

variable {h : Handler σ ε α}

theorem Spec.bind (hh : Spec Q seen w h)
    (hok : ∀ a seen' w', Q (.ok a) seen' w' → Spec R seen' w' (f a))
    (herror : ∀ e seen' w', Q (.error e) seen' w' → R (.error e) seen' w') :
    Spec R seen w (h >>= f) := by
  refine Snapshots.bind hh fun r seen' w' hr => ?_
  cases r with
  | ok a => exact hok a seen' w' hr
  | error e => exact herror e seen' w' hr

theorem Spec.weaken (hh : Spec Q seen w h) (hQ : ∀ r seen w, Q r seen w → Q' r seen w) :
    Spec Q' seen w h :=
  Snapshots.weaken hh hQ

/-- A transaction that runs alone. -/
theorem Spec.transaction {h : Handler σ ε ε} {Q : Except ε ε → List σ → (σ → σ) → Prop}
    (hh : Spec Q [] id h) (db : σ) :
    (∃ r seen w, (∀ d ∈ seen, d = db) ∧ Q (.ok r) seen w ∧ h.transaction db = (r, w db)) ∨
      ∃ e seen w, (∀ d ∈ seen, d = db) ∧ Q (.error e) seen w ∧ h.transaction db = (e, db) := by
  obtain ⟨seen, w, hseen, hQ, hw⟩ := Snapshots.exec db hh (by simp)
  unfold Handler.transaction
  cases hexec : Program.exec h.run db with
  | mk r db' =>
      rw [id_eq, hexec] at hQ hw
      cases r with
      | ok r => exact .inl ⟨r, seen, w, hseen, hQ, by rw [← hw]⟩
      | error e => exact .inr ⟨e, seen, w, hseen, hQ, rfl⟩

/-- A transaction that answers, run alone. -/
theorem Spec.answered {h : Handler σ ε ε} {Q : Except ε ε → List σ → (σ → σ) → Prop} {db : σ}
    (hh : Spec Q [] id h) (hanswers : h.answers db = true) :
    ∃ r seen w, (∀ d ∈ seen, d = db) ∧ Q (.ok r) seen w ∧ h.transaction db = (r, w db) := by
  obtain ⟨seen, w, hseen, hQ, hw⟩ := Snapshots.exec db hh (by simp)
  unfold answers at hanswers
  unfold Handler.transaction
  rcases hexec : Program.exec h.run db with ⟨e | r, db'⟩
  · rw [hexec] at hanswers
    cases hanswers
  · rw [id_eq, hexec] at hQ hw
    exact ⟨r, seen, w, hseen, hQ, by rw [← hw]⟩

/-- Statements that commit one by one, run alone. -/
theorem Spec.autocommit {h : Handler σ ε ε} {Q : Except ε ε → List σ → (σ → σ) → Prop}
    (hh : Spec Q [] id h) (db : σ) :
    ∃ r seen w, (∀ d ∈ seen, d = db) ∧ (Q (.ok r) seen w ∨ Q (.error r) seen w) ∧
      h.autocommit db = (r, w db) := by
  obtain ⟨seen, w, hseen, hQ, hw⟩ := Snapshots.exec db hh (by simp)
  unfold Handler.autocommit
  cases hexec : Program.exec h.run db with
  | mk r db' =>
      rw [id_eq, hexec] at hQ hw
      cases r with
      | ok r => exact ⟨r, seen, w, hseen, .inl hQ, by rw [← hw]⟩
      | error e => exact ⟨e, seen, w, hseen, .inr hQ, by rw [← hw]⟩

end Handler

end SpecterComs
