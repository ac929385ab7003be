import Mathlib.Data.List.TakeWhile
import GraphqlArtifacts.Proofs.Documents.Mentioning
import GraphqlArtifacts.Proofs.Json.RoundTrip
import GraphqlArtifacts.Proofs.Watchman.Commands

namespace GraphqlArtifacts

section Blank

variable {c : Char} {s : List Char} {text : String}

namespace Json

theorem readScalar_blank (h : isBlank c) :
    readScalar (c :: s) = .error ⟨.expectingValue, c :: s⟩ := by
  have hn : 'n' ≠ c := ne_of_isBlank h rfl
  have ht : 't' ≠ c := ne_of_isBlank h rfl
  have hf : 'f' ≠ c := ne_of_isBlank h rfl
  have hN : 'N' ≠ c := ne_of_isBlank h rfl
  have hI : 'I' ≠ c := ne_of_isBlank h rfl
  have hm : '-' ≠ c := ne_of_isBlank h rfl
  have hz : '0' ≠ c := ne_of_isBlank h rfl
  have hi : integerDigits (c :: s) = ([], c :: s) := by
    have hs : (c :: s).span Char.isDigit = ([], c :: s) := by
      simp [List.span_eq_takeWhile_dropWhile, not_isDigit_of_isBlank h]
    rw [← hs]
    exact integerDigits.eq_2 _ fun _ he => hz (List.cons.inj he).left.symm
  simp only [readScalar, wordValues, afterWord?]
  simp [hn, ht, hf, hN, hI, hm]
  split
  case h_1 he => exact absurd (List.cons.inj he).left hm.symm
  case h_2    => simp [readNumber, hi]

-- No value starts with a blank.
theorem readValue_blank (h : ∀ c ∈ s, isBlank c) (fuel : Nat) :
    ∃ f, readValue fuel s = .error f := by
  cases fuel
  case zero => exact ⟨_, rfl⟩
  case succ fuel =>
    cases s
    case nil => exact ⟨_, rfl⟩
    case cons c s =>
      have hc : isBlank c := h c (by simp)
      have hv : readValue (fuel + 1) (c :: s) = readScalar (c :: s) :=
        readValue_scalar (ne_of_isBlank hc rfl).symm (ne_of_isBlank hc rfl).symm
          (ne_of_isBlank hc rfl).symm
      exact ⟨_, hv.trans <| readScalar_blank hc⟩

-- Blanks are no document.
theorem read_blank (h : trimBlank text.toList = []) (d : Data) : read text ≠ .ok d := by
  have hb := trimBlank_eq_nil_iff.mp h
  have hs : ∀ c ∈ skipSpace text.toList, isBlank c :=
    fun c hc => hb c <| (List.dropWhile_suffix _).subset hc
  have ⟨f, hf⟩ := readValue_blank hs (2 * text.toList.length + 2)
  have hd : ∃ f, readDocument text.toList = .error f := by
    unfold readDocument
    split
    case h_1 => exact ⟨_, rfl⟩
    case h_2 => exact ⟨f, by rw [hf]; rfl⟩
  have ⟨f, hf⟩ := hd
  simp [read, hf, Except.mapError]

end Json

end Blank

-- A value that is read from the output of a process.
def ProcessEnd.Says (ending : ProcessEnd) (d : Data) : Prop :=
  ∃ code output errors, ending = .exited code output errors ∧ Json.read output = .ok d

theorem ProcessEnd.Says.unique {ending : ProcessEnd} {d d' : Data} (h : ending.Says d)
    (h' : ending.Says d') : d = d' := by
  obtain ⟨code, output, errors, rfl, hr⟩ := h
  obtain ⟨_, _, _, he, hr'⟩ := h'
  cases he
  exact Except.ok.inj <| hr.symm.trans hr'

namespace Watchman

-- Only the service is at fault, if anything is.
def IsTold (result : Except WatchmanFault α) : Prop :=
  ∀ fault, result = .error fault → ∃ e, fault = .service e

-- Values in which a key is looked for: tables, and lists and texts that do not have it.
inductive IsSearched (key : String) : Data → Prop
  | table (entries : List (String × Data)) : IsSearched key (.table entries)
  | list {items : List Data} (h : .text key ∉ items) : IsSearched key (.list items)
  | text {s : String} (h : ¬ key.toList <:+: s.toList) : IsSearched key (.text s)

section Answer

variable {ending : ProcessEnd} {d : Data} {key : String} {entries : List (String × Data)}
  {f : Data → Except WatchmanFault α}

@[simp]
theorem isTold_ok {a : α} : IsTold (.ok a : Except WatchmanFault α) :=
  nofun

@[simp]
theorem isTold_error {fault : WatchmanFault} :
    IsTold (.error fault : Except WatchmanFault α) ↔ ∃ e, fault = .service e := by
  simp [IsTold]

theorem isTold_bind_iff {r : Except WatchmanFault α} {g : α → Except WatchmanFault β} :
    IsTold (r >>= g) ↔ IsTold r ∧ ∀ a, r = .ok a → IsTold (g a) := by
  cases r <;> simp [bind, Except.bind]

theorem isTold_map_iff {r : Except WatchmanFault α} {g : α → β} :
    IsTold (r.map g) ↔ IsTold r := by
  cases r <;> simp [Except.map]

theorem answerOf_of_said (h : ending.Says d) : answerOf ending = checked d := by
  obtain ⟨code, output, errors, rfl, hr⟩ := h
  have hb : ¬ (code ≠ 0 ∧ trim output = "") := by
    rintro ⟨-, ht⟩
    exact Json.read_blank (String.ofList_eq_empty_iff.mp ht) d hr
  simp only [answerOf, if_neg hb, hr]

theorem answerOf_of_silent (h : ∀ d, ¬ ending.Says d) :
    ∃ e, answerOf ending = .error (.service e) := by
  cases ending
  case timedOut => exact ⟨_, rfl⟩
  case notStarted => exact ⟨_, rfl⟩
  case exited code output errors =>
    by_cases hb : code ≠ 0 ∧ trim output = ""
    case pos => exact ⟨_, if_pos hb⟩
    case neg =>
      rw [answerOf, if_neg hb]
      rcases hr : Json.read output with e | d
      case error => exact ⟨_, rfl⟩
      case ok    => exact absurd ⟨code, output, errors, rfl, hr⟩ <| h d

-- What holds where the service is at fault holds of an answer if it holds of each value that is
-- said.
theorem answerOf_iff {P : Except WatchmanFault Data → Prop} (hs : ∀ e, P (.error (.service e))) :
    P (answerOf ending) ↔ ∀ d, ending.Says d → P (checked d) := by
  by_cases h : ∃ d, ending.Says d
  case pos =>
    have ⟨d, hd⟩ := h
    rw [answerOf_of_said hd]
    exact ⟨fun hp d' hd' => hd.unique hd' ▸ hp, fun hp => hp d hd⟩
  case neg =>
    have ⟨e, he⟩ := answerOf_of_silent <| not_exists.mp h
    rw [he]
    exact iff_of_true (hs e) fun d hd => absurd ⟨d, hd⟩ h

theorem same_text_iff : Data.same (.text key) d ↔ d = .text key := by
  cases d <;> simp [Data.same, Data.integer?]
  exact eq_comm

theorem checked_table : checked (.table entries) =
    match Data.lookup errorKey entries with
    | some d => .error (.service (.reported d.display))
    | none   => .ok (.table entries) := by
  rcases h : Data.lookup errorKey entries with _ | d <;>
    simp [checked, speaksOfError, required, h] <;> rfl

theorem speaksOfError_other (ht : ∀ entries, d ≠ .table entries) :
    (∃ told, speaksOfError d = .ok told ∧ (told = false ↔ IsSearched errorKey d)) ∨
      speaksOfError d = .error (.notSearched d) ∧ ¬ IsSearched errorKey d := by
  cases d
  case table entries => exact absurd rfl <| ht entries
  case list items =>
    refine .inl ⟨_, rfl, ?_⟩
    rw [Bool.eq_false_iff, ne_eq, List.any_eq_true]
    simp only [same_text_iff, exists_eq_right]
    exact ⟨.list, fun | .list h => h⟩
  case text s =>
    refine .inl ⟨_, rfl, ?_⟩
    rw [Bool.eq_false_iff, ne_eq, holdsText_iff]
    exact ⟨.text, fun | .text h => h⟩
  all_goals exact .inr ⟨rfl, nofun⟩

theorem required_other (ht : ∀ entries, d ≠ .table entries) :
    required key d = .error (.notKeyed d) := by
  cases d
  case table entries => exact absurd rfl <| ht entries
  all_goals rfl

theorem optional_other (ht : ∀ entries, d ≠ .table entries) :
    optional key d = .error (.noFields d) := by
  cases d
  case table entries => exact absurd rfl <| ht entries
  all_goals rfl

-- What is no table is passed on, or fails for another reason than the service.
theorem checked_other (ht : ∀ entries, d ≠ .table entries) :
    checked d = .ok d ∧ IsSearched errorKey d ∨
      ¬ IsTold (checked d) ∧ ¬ IsSearched errorKey d := by
  rw [checked]
  obtain ⟨told, hs, hd⟩ | ⟨hs, hd⟩ := speaksOfError_other ht
  case inr => exact .inr ⟨by simp [hs, bind, Except.bind], hd⟩
  case inl =>
    rw [hs]
    cases told
    case false => exact .inl ⟨rfl, hd.mp rfl⟩
    case true  => exact .inr ⟨by simp [required_other ht, bind, Except.bind], hd.not.mp nofun⟩

theorem isTold_checked_iff : IsTold (checked d) ↔ IsSearched errorKey d := by
  by_cases ht : ∃ entries, d = .table entries
  case pos =>
    have ⟨entries, he⟩ := ht
    rw [he, checked_table]
    refine iff_of_true ?_ (.table entries)
    cases Data.lookup errorKey entries <;> simp
  case neg =>
    obtain ⟨hc, hs⟩ | ⟨hc, hs⟩ := checked_other (not_exists.mp ht)
    case inl => exact iff_of_true (hc ▸ isTold_ok) hs
    case inr => exact iff_of_false hc hs

-- A table without an error, or the service's own fault.
def IsObject (result : Except WatchmanFault Data) : Prop :=
  (∀ d, result = .ok d → ∃ entries, d = .table entries ∧ Data.lookup errorKey entries = none) ∧
    IsTold result

theorem isObject_checked_iff : IsObject (checked d) ↔ ∃ entries, d = .table entries := by
  by_cases ht : ∃ entries, d = .table entries
  case pos =>
    have ⟨entries, he⟩ := ht
    refine iff_of_true ?_ ht
    rw [he, checked_table]
    cases hl : Data.lookup errorKey entries <;> simp [IsObject, hl]
  case neg =>
    refine iff_of_false (fun ho => ht ?_) ht
    obtain ⟨hc, -⟩ | ⟨hc, -⟩ := checked_other (not_exists.mp ht)
    case inl =>
      have ⟨entries, he, _⟩ := ho.left d hc
      exact ⟨entries, he⟩
    case inr => exact absurd ho.right hc

-- Where members of a table are looked up next, nothing else will do.
theorem isTold_checked_bind_iff
    (hf : ∀ d, (∀ entries, d ≠ .table entries) → ¬ IsTold (f d)) :
    IsTold (checked d >>= f) ↔ ∃ entries, d = .table entries ∧
      ((Data.lookup errorKey entries).isSome ∨ IsTold (f (.table entries))) := by
  by_cases ht : ∃ entries, d = .table entries
  case pos =>
    obtain ⟨entries, rfl⟩ := ht
    rw [checked_table]
    cases hl : Data.lookup errorKey entries <;> simp [hl, bind, Except.bind]
  case neg =>
    refine iff_of_false ?_ fun ⟨entries, he, _⟩ => ht ⟨entries, he⟩
    obtain ⟨hc, -⟩ | ⟨hc, -⟩ := checked_other (not_exists.mp ht)
    case inl =>
      rw [hc]
      exact hf d (not_exists.mp ht)
    case inr => exact fun hb => hc (isTold_bind_iff.mp hb).left

theorem isTold_required_iff :
    IsTold (required key (.table entries)) ↔ (Data.lookup key entries).isSome := by
  rw [required]
  cases Data.lookup key entries <;> simp

theorem isTold_pure {a : α} : IsTold (pure a : Except WatchmanFault α) :=
  isTold_ok

theorem isTold_watchOf_iff :
    IsTold (watchOf (.table entries)) ↔ (Data.lookup "watch" entries).isSome := by
  simp [watchOf, isTold_bind_iff, isTold_required_iff, optional]

theorem isTold_resultOf_iff : IsTold (resultOf (.table entries)) ↔
    (Data.lookup "clock" entries).isSome ∧
      ∀ files, Data.lookup "files" entries = some files → files.items?.isSome := by
  have hf : (∀ files, Data.lookup "files" entries = some files → files.items?.isSome) ↔
      ((Data.lookup "files" entries).getD (.list [])).items?.isSome := by
    cases Data.lookup "files" entries <;> simp [Data.items?]
  rw [hf]
  simp only [resultOf, optional, isTold_bind_iff, isTold_required_iff, isTold_pure, isTold_ok,
    Except.ok.injEq, forall_eq', implies_true, and_true, true_and, names]
  cases ((Data.lookup "files" entries).getD (.list [])).items? <;> simp

end Answer

-- A command, and how its process ended.
structure Exchange where
  words : List Data
  ending : ProcessEnd

-- The service that answers as a process does, with a record of what was exchanged.
def recorded (process : List Data → σ → ProcessEnd × σ) : WatchService (σ × List Exchange) :=
  fun words (s, log) =>
    let (ending, s) := process words s
    (answerOf ending, s, log ++ [⟨words, ending⟩])

theorem exec_recorded {process : List Data → σ → ProcessEnd × σ} {words : List Data}
    {watches : Watches} {s : σ} {log : List Exchange} :
    exec (command (recorded process) words) (watches, s, log) =
      (answerOf (process words s).1, watches, (process words s).2,
        log ++ [⟨words, (process words s).1⟩]) :=
  rfl

-- One exchange, and what is looked up in the answer.
theorem exec_ask {process : List Data → σ → ProcessEnd × σ} {words : List Data}
    {watches : Watches} {s : σ} {log : List Exchange} (f : Data → Except WatchmanFault α) :
    exec (command (recorded process) words >>= fun answer => ofStep (f answer))
      (watches, s, log) = (answerOf (process words s).1 >>= f, watches, (process words s).2,
        log ++ [⟨words, (process words s).1⟩]) := by
  rw [exec_bind, exec_recorded]
  rcases answerOf (process words s).1 with fault | answer <;> rfl

-- A step after the answer that fails with nothing of its own.
theorem ofStep_map (r : Except WatchmanFault α) (g : α → β) :
    (ofStep r >>= fun a => pure (g a) : Talk σ β) = ofStep (r.map g) := by
  cases r <;> rfl

-- The members that are looked up in the answer to a command.
def HasMembers (entries : List (String × Data)) : List Data → Prop
  | .text "watch-project" :: _ => (Data.lookup "watch" entries).isSome
  | .text "clock" :: _ => (Data.lookup "clock" entries).isSome
  | .text "query" :: _ =>
    (Data.lookup "clock" entries).isSome ∧
      ∀ files, Data.lookup "files" entries = some files → files.items?.isSome
  | _ => True

-- The process says nothing, tells of an error, or has the members that are looked up.
def Exchange.IsProper (x : Exchange) : Prop :=
  ∀ d, x.ending.Says d → ∃ entries, d = .table entries ∧
    ((Data.lookup errorKey entries).isSome ∨ HasMembers entries x.words)

-- Whether only the service is at fault is told by the exchanges that a call takes.
def IsDecided (call : Talk (σ × List Exchange) α) : Prop :=
  ∀ watches s log, ∃ more, (exec call (watches, s, log)).2.2.2 = log ++ more ∧
    (IsTold (exec call (watches, s, log)).1 ↔ ∀ x ∈ more, x.IsProper)

namespace IsDecided

variable {call : Talk (σ × List Exchange) α} {next : α → Talk (σ × List Exchange) β}
  {process : List Data → σ → ProcessEnd × σ} {words : List Data}
  {f : Data → Except WatchmanFault α}

theorem silent (h : ∀ watches s, ∃ a watches', exec call (watches, s) = (.ok a, watches', s)) :
    IsDecided call := by
  intro watches s log
  have ⟨a, watches', he⟩ := h watches (s, log)
  rw [he]
  exact ⟨[], by simp, by simp⟩

theorem bind (hc : IsDecided call) (hn : ∀ a, IsDecided (next a)) : IsDecided (call >>= next) := by
  intro watches s log
  have ⟨more, hlog, htold⟩ := hc watches s log
  rcases he : exec call (watches, s, log) with ⟨e | a, watches₁, s₁, log₁⟩ <;>
    rw [he] at hlog htold
  case error =>
    rw [exec_bind_of_error he]
    exact ⟨more, hlog, by simpa using htold⟩
  case ok =>
    have ⟨more', hlog', htold'⟩ := hn a watches₁ s₁ log₁
    obtain rfl : log₁ = log ++ more := hlog
    rw [exec_bind_of_ok he]
    refine ⟨more ++ more', by simpa using hlog', htold'.trans ?_⟩
    rw [List.forall_mem_append, and_iff_right <| htold.mp isTold_ok]

theorem ask (hf : ∀ d, (∀ entries, d ≠ .table entries) → ¬ IsTold (f d))
    (hw : ∀ entries, IsTold (f (.table entries)) ↔ HasMembers entries words) :
    IsDecided (command (recorded process) words >>= fun answer => ofStep (f answer)) := by
  intro watches s log
  have htold : IsTold (answerOf (process words s).1 >>= f) ↔
      Exchange.IsProper ⟨words, (process words s).1⟩ := by
    rw [answerOf_iff (P := fun r => IsTold (r >>= f)) fun e => isTold_error.mpr ⟨e, rfl⟩]
    simp only [isTold_checked_bind_iff hf, hw]
    rfl
  rw [exec_ask]
  exact ⟨_, rfl, by simpa using htold⟩

variable (process)

theorem watchProject (directory : Path) :
    IsDecided (watchProject (recorded process) directory) := by
  have hask : IsDecided (command (recorded process)
      [.text "watch-project", .text directory.text] >>= fun answer => ofStep (watchOf answer)) := by
    refine .ask (fun d ht ho => ?_) fun _ => isTold_watchOf_iff
    simp [watchOf, required_other ht, isTold_bind_iff] at ho
  refine .bind (.silent fun _ _ => ⟨_, _, rfl⟩) fun (watches, _) => ?_
  dsimp only
  split
  case h_1 => exact .silent fun _ _ => ⟨_, _, rfl⟩
  case h_2 =>
    rw [← bind_assoc]
    exact hask.bind fun watch => .silent fun _ _ => ⟨watch, _, rfl⟩

theorem clock (directory : Path) : IsDecided (clock (recorded process) directory) := by
  refine (watchProject process directory).bind fun watch => ?_
  simp only [ofStep_map]
  refine ask (fun d ht => ?_) fun entries => isTold_map_iff.trans isTold_required_iff
  simp [isTold_map_iff, required_other ht]

theorem query (directory : Path) (expression : Data) (since : Option String) :
    IsDecided (query (recorded process) directory expression since) :=
  (watchProject process directory).bind fun watch =>
    .ask (fun d ht ho => by
      simp [resultOf, optional_other ht, isTold_bind_iff] at ho) fun _ => isTold_resultOf_iff

end IsDecided

-- What a call comes to: its result, and the exchanges that it takes.
structure Outcome (α : Type) where
  result : Except WatchmanFault α
  exchanges : List Exchange

-- A call, with a process that behaves in any way.
def outcome (process : List Data → σ → ProcessEnd × σ) (watches : Watches) (s : σ)
    (call : WatchService (σ × List Exchange) → Talk (σ × List Exchange) α) : Outcome α :=
  let (result, _, _, log) := exec (call (recorded process)) (watches, s, [])
  ⟨result, log⟩

-- What is said in the exchanges of a call.
def Outcome.Hears (o : Outcome α) (P : Data → Prop) : Prop :=
  ∀ x ∈ o.exchanges, ∀ d, x.ending.Says d → P d

section Outcome

variable {process : List Data → σ → ProcessEnd × σ} {watches : Watches} {s : σ}
  {call : WatchService (σ × List Exchange) → Talk (σ × List Exchange) α} {ending : ProcessEnd}

theorem isTold_outcome_iff (h : IsDecided (call (recorded process))) :
    IsTold (outcome process watches s call).result ↔
      ∀ x ∈ (outcome process watches s call).exchanges, x.IsProper := by
  have ⟨more, hlog, htold⟩ := h watches s []
  obtain rfl : _ = more := hlog
  exact htold

theorem isObject_answer_iff : IsObject (answerOf ending) ↔
    ∀ d, ending.Says d → ∃ entries, d = .table entries :=
  (answerOf_iff fun e => ⟨nofun, isTold_error.mpr ⟨e, rfl⟩⟩).trans <|
    forall₂_congr fun _ _ => isObject_checked_iff

theorem isAvailable_outcome_iff {installed : Bool} :
    (∃ b, (outcome process watches s (isAvailable · installed)).result = .ok b) ↔
      (outcome process watches s (isAvailable · installed)).Hears (IsSearched errorKey) := by
  cases installed
  case false => exact iff_of_true ⟨false, rfl⟩ nofun
  case true =>
    let x : Exchange := ⟨[.text "version"], (process [.text "version"] s).1⟩
    have hcall : ((∃ b, (exec (isAvailable (recorded process) true) (watches, s, [])).1 = .ok b) ↔
        IsTold (answerOf x.ending)) ∧
        (exec (isAvailable (recorded process) true) (watches, s, [])).2.2.2 = [x] := by
      rw [isAvailable, if_pos rfl, exec_tryCatch, seqRight_eq_bind, exec_bind, exec_recorded]
      rcases answerOf (process [.text "version"] s).1 with ⟨_ | _⟩ | _ <;> simp [x]
    refine hcall.left.trans ?_
    simp only [outcome, Outcome.Hears, hcall.right, List.forall_mem_singleton, ← isTold_checked_iff]
    exact answerOf_iff fun e => isTold_error.mpr ⟨e, rfl⟩

end Outcome

-- Whatever a process answers, only the service is at fault as long as each value that it says is a
-- table with an error or with the members that are looked up in it. A list or a text passes for an
-- answer that has none, until something is looked up in it.
theorem outcomes_told_iff (process : List Data → σ → ProcessEnd × σ) (watches : Watches) (s : σ) :
    (∀ words, IsObject (outcome process watches s (command · words)).result ↔
      (outcome process watches s (command · words)).Hears fun d => ∃ entries, d = .table entries) ∧
    (∀ installed, (∃ b, (outcome process watches s (isAvailable · installed)).result = .ok b) ↔
      (outcome process watches s (isAvailable · installed)).Hears (IsSearched errorKey)) ∧
    (∀ directory, IsTold (outcome process watches s (clock · directory)).result ↔
      ∀ x ∈ (outcome process watches s (clock · directory)).exchanges, x.IsProper) ∧
    ∀ directory expression since,
      IsTold (outcome process watches s (query · directory expression since)).result ↔
        ∀ x ∈ (outcome process watches s (query · directory expression since)).exchanges,
          x.IsProper := by
  refine ⟨fun words => ?command, fun _ => isAvailable_outcome_iff,
    fun directory => isTold_outcome_iff <| .clock process directory,
    fun directory expression since => isTold_outcome_iff <| .query process directory expression since⟩
  have hx : (outcome process watches s (command · words)).exchanges =
      [⟨words, (process words s).1⟩] := rfl
  rw [Outcome.Hears, hx, List.forall_mem_singleton]
  exact isObject_answer_iff

-- A process that always says the same.
def saying (output : String) : List Data → Unit → ProcessEnd × Unit :=
  fun _ s => (.exited 0 output "", s)

-- Values that no service should answer with: each fault is another one than the service's.
theorem outcomes_untold :
    (outcome (saying "null") [] () (isAvailable · true)).result = .error (.notSearched .null) ∧
    (outcome (saying "[]") [] () (command · [.text "version"])).result = .ok (.list []) ∧
    (outcome (saying "\x7b\x7d") [] () (clock · ⟨"/", ["app"]⟩)).result =
      .error (.missing "watch") := by
  exact ⟨rfl, rfl, rfl⟩

end Watchman

end GraphqlArtifacts
