import Mathlib.Data.List.Induction
import GraphqlArtifacts.Proofs.Watchman.Answers

namespace GraphqlArtifacts

-- A reply that gives a watch: a table without an error that names the root of the watch, and
-- perhaps the way from there.
def ProcessEnd.Gives (ending : ProcessEnd) (v : Watch) : Prop :=
  ∃ entries root, ending.Says (.table entries) ∧ Data.lookup Watchman.errorKey entries = none ∧
    Data.lookup "watch" entries = some root ∧
    v = ⟨root.display, Data.lookup "relative_path" entries⟩

namespace Watchman

-- What a client is asked for about a directory: the time, or the files that an expression accepts.
inductive Request
  | clock (directory : Path)
  | query (directory : Path) (expression : Data) (since : Option String)

-- The members of a query by a watch. The way from the root of the watch is one of them unless it is
-- empty, and the time if one is given.
structure IsSpec (v : Watch) (e : Data) (c : Option String) (spec : List (String × Data)) :
    Prop where
  expression : Data.lookup "expression" spec = some e
  fields : Data.lookup "fields" spec = some (.list [.text "name"])
  relative : ∀ d, Data.lookup "relative_root" spec = some d ↔ v.relative = some d ∧ d.holds
  since : ∀ d, Data.lookup "since" spec = some d ↔ ∃ clock, c = some clock ∧ d = .text clock

def watchWords (directory : Path) : List Data :=
  [.text "watch-project", .text directory.text]

namespace Request

def directory : Request → Path
  | clock directory | query directory .. => directory

-- The words of a request, once its directory has a watch.
inductive Asks : Request → Watch → List Data → Prop
  | clock {directory : Path} {v : Watch} :
    Asks (clock directory) v [.text "clock", .text v.root]
  | query {directory : Path} {e : Data} {c : Option String} {v : Watch}
    {spec : List (String × Data)} (h : IsSpec v e c spec) :
    Asks (query directory e c) v [.text "query", .text v.root, .table spec]

-- The words that a client has for a request.
def words (q : Request) (v : Watch) : List Data :=
  match q with
  | clock _ => [.text "clock", .text v.root]
  | query _ e c => [.text "query", .text v.root, querySpec v e c]

-- Puts a request to a service.
def talk (service : WatchService σ) : Request → Talk σ PUnit
  | clock directory => discard (Watchman.clock service directory)
  | query directory e c => discard (Watchman.query service directory e c)

end Request

-- A request, what was exchanged for it, and what it came to.
structure Turn where
  request : Request
  exchanges : List Exchange
  result : Except WatchmanFault PUnit

-- A command that was sent for a request.
structure Sent extends Exchange where
  request : Request

namespace Turn

def sent (t : Turn) : List Sent :=
  t.exchanges.map (⟨·, t.request⟩)

-- How a turn goes, by the watches that were given for its directory: by one of them, or it asks for
-- one first. Without an answer to that it fails.
inductive Follows (given : Watch → Prop) : Turn → Prop
  | watched {q : Request} {x : Exchange} {v : Watch} {result : Except WatchmanFault PUnit}
    (hv : given v) (ha : q.Asks v x.words) : Follows given ⟨q, [x], result⟩
  | refused {q : Request} {x : Exchange} {e : WatchmanFault} (hn : ∀ v, ¬ given v)
    (hw : x.words = watchWords q.directory) (hr : ∀ v, ¬ x.ending.Gives v) :
    Follows given ⟨q, [x], .error e⟩
  | granted {q : Request} {x y : Exchange} {v : Watch} {result : Except WatchmanFault PUnit}
    (hn : ∀ v, ¬ given v) (hw : x.words = watchWords q.directory) (hg : x.ending.Gives v)
    (ha : q.Asks v y.words) : Follows given ⟨q, [x, y], result⟩

end Turn

-- A command for a directory with an answer that gives a watch.
def Sent.Gives (m : Sent) (directory : Path) (v : Watch) : Prop :=
  m.request.directory = directory ∧ m.words = watchWords directory ∧ m.ending.Gives v

def IsGiven (history : List Sent) (directory : Path) (v : Watch) : Prop :=
  ∃ m ∈ history, m.Gives directory v

-- Each command asks for a watch while none is given for the directory, and names the one that was
-- given from then on.
def NamesGiven (history : List Sent) : Prop :=
  ∀ before m after, history = before ++ m :: after →
    m.words = watchWords m.request.directory ∧ (∀ v, ¬ IsGiven before m.request.directory v) ∨
    ∃ v, IsGiven before m.request.directory v ∧ m.request.Asks v m.words

-- Each turn goes by the watches that were given in those before.
def GoesOn (ts : List Turn) : Prop :=
  ∀ done t rest, ts = done ++ t :: rest →
    t.Follows (IsGiven (done.flatMap Turn.sent) t.request.directory)

-- The turns of a client, one request after the other, with a process that behaves in any way.
def turns (process : List Data → σ → ProcessEnd × σ) : List Request → Watches → σ → List Turn
  | [], _, _ => []
  | q :: requests, watches, s =>
    let (result, watches, s, exchanges) := exec (q.talk (recorded process)) (watches, s, [])
    ⟨q, exchanges, result⟩ :: turns process requests watches s

variable {σ : Type} {process : List Data → σ → ProcessEnd × σ} {watches watches' : Watches}
  {s s' : σ} {q : Request} {requests : List Request} {v v' : Watch} {ending : ProcessEnd}
  {directory : Path} {d : Data} {m : Sent} {t : Turn}
  {history before after : List Sent} {exchanges log log' : List Exchange} {e : WatchmanFault}
  {result : Except WatchmanFault PUnit}

section Replies

theorem watchOf_iff : watchOf d = .ok v ↔ ∃ entries root, d = .table entries ∧
    Data.lookup "watch" entries = some root ∧
    v = ⟨root.display, Data.lookup "relative_path" entries⟩ := by
  by_cases ht : ∃ entries, d = .table entries
  case pos =>
    obtain ⟨entries, rfl⟩ := ht
    cases hl : Data.lookup "watch" entries <;>
      simp [watchOf, required, optional, hl, bind, Except.bind, pure, Except.pure, eq_comm]
  case neg =>
    refine iff_of_false ?_ ?_
    · simp [watchOf, required_other (not_exists.mp ht), bind, Except.bind]
    · rintro ⟨entries, _, he, _⟩
      exact ht ⟨entries, he⟩

theorem checked_table_iff {entries : List (String × Data)} :
    checked d = .ok (.table entries) ↔
      d = .table entries ∧ Data.lookup errorKey entries = none := by
  by_cases ht : ∃ entries, d = .table entries
  case pos =>
    obtain ⟨entries', rfl⟩ := ht
    rw [checked_table]
    cases hl : Data.lookup errorKey entries'
    case none =>
      simp only [Except.ok.injEq, Data.table.injEq]
      exact ⟨fun he => ⟨he, he ▸ hl⟩, And.left⟩
    case some =>
      refine iff_of_false nofun fun ⟨he, hn⟩ => ?_
      cases he
      simp [hl] at hn
  case neg =>
    refine iff_of_false (fun hc => ?_) fun ⟨he, _⟩ => ht ⟨entries, he⟩
    obtain ⟨hd, _⟩ | ⟨hd, _⟩ := checked_other (not_exists.mp ht)
    case inl => exact ht ⟨entries, Except.ok.inj <| hd.symm.trans hc⟩
    case inr => exact hd <| hc ▸ isTold_ok

theorem answerOf_table_iff {entries : List (String × Data)} :
    answerOf ending = .ok (.table entries) ↔
      ending.Says (.table entries) ∧ Data.lookup errorKey entries = none := by
  by_cases hs : ∃ d, ending.Says d
  case pos =>
    have ⟨d, hd⟩ := hs
    rw [answerOf_of_said hd, checked_table_iff]
    exact and_congr_left fun _ => ⟨fun he => he ▸ hd, hd.unique⟩
  case neg =>
    have ⟨e, he⟩ := answerOf_of_silent <| not_exists.mp hs
    exact iff_of_false (by simp [he]) fun ⟨hd, _⟩ => hs ⟨_, hd⟩

-- A watch is taken from exactly the replies that give it.
theorem watchOf_answerOf_iff : (∃ d, answerOf ending = .ok d ∧ watchOf d = .ok v) ↔
    ending.Gives v := by
  simp only [watchOf_iff]
  constructor
  case mp =>
    rintro ⟨_, ha, entries, root, rfl, hw, hv⟩
    have ⟨hs, hn⟩ := answerOf_table_iff.mp ha
    exact ⟨entries, root, hs, hn, hw, hv⟩
  case mpr =>
    rintro ⟨entries, root, hs, hn, hw, hv⟩
    exact ⟨_, answerOf_table_iff.mpr ⟨hs, hn⟩, entries, root, rfl, hw, hv⟩

theorem gives_unique (h : ending.Gives v) (h' : ending.Gives v') : v = v' := by
  have ⟨d, ha, hv⟩ := watchOf_answerOf_iff.mpr h
  have ⟨d', ha', hv'⟩ := watchOf_answerOf_iff.mpr h'
  cases ha.symm.trans ha'
  exact Except.ok.inj <| hv.symm.trans hv'

end Replies

section Words

theorem isSpec_querySpec {c : Option String} {spec : List (String × Data)}
    (h : querySpec v d c = .table spec) : IsSpec v d c spec := by
  cases h
  have hr (d : Data) : v.relative.filter Data.holds = some d ↔ v.relative = some d ∧ d.holds :=
    Option.filter_eq_some_iff
  constructor
  case expression => rfl
  case fields => rfl
  case relative =>
    intro d
    rw [← hr]
    cases v.relative.filter Data.holds <;> cases c <;> simp [Data.lookup]
  case since =>
    intro d
    cases v.relative.filter Data.holds <;> cases c <;> simp [Data.lookup, eq_comm]

theorem asks_words (q : Request) (v : Watch) : q.Asks v (q.words v) := by
  cases q
  case clock => exact .clock
  case query => exact .query <| isSpec_querySpec rfl

theorem Request.Asks.head {words : List Data} (h : q.Asks v words) :
    words.head? = some (.text "clock") ∨ words.head? = some (.text "query") := by
  cases h
  case clock => exact .inl rfl
  case query => exact .inr rfl

-- No request reads like a command for a watch.
theorem not_asks_watchWords : ¬ q.Asks v (watchWords directory) := fun h => by
  simpa [watchWords] using h.head

end Words

section Turns

-- A request is put to the service after a watch is there, and something is looked up in the answer.
theorem talk_eq (service : WatchService σ) (q : Request) :
    ∃ f : Data → Except WatchmanFault PUnit, q.talk service =
      (watchProject service q.directory >>= fun v =>
        command service (q.words v) >>= fun answer => ofStep (f answer)) := by
  cases q
  case clock =>
    refine ⟨fun answer => ((required "clock" answer).map Data.display).map fun _ => ⟨⟩, ?_⟩
    change (fun _ => PUnit.unit) <$> clock service _ = _
    simp only [clock, ofStep_map, ← bind_pure_comp, bind_assoc]
    rfl
  case query =>
    refine ⟨fun answer => (resultOf answer).map fun _ => ⟨⟩, ?_⟩
    change (fun _ => PUnit.unit) <$> query service _ _ _ = _
    simp only [query, ofStep_map, ← bind_pure_comp, bind_assoc]
    rfl

theorem exec_talk_of_error
    (h : exec (watchProject (recorded process) q.directory) (watches, s, log) =
      (.error e, watches', s', log')) :
    exec (q.talk (recorded process)) (watches, s, log) = (.error e, watches', s', log') := by
  have ⟨f, hf⟩ := talk_eq (recorded process) q
  rw [hf, exec_bind_of_error h]

theorem exec_talk_of_ok
    (h : exec (watchProject (recorded process) q.directory) (watches, s, log) =
      (.ok v, watches', s', log')) :
    ∃ result s' ending, exec (q.talk (recorded process)) (watches, s, log) =
      (result, watches', s', log' ++ [⟨q.words v, ending⟩]) := by
  have ⟨f, hf⟩ := talk_eq (recorded process) q
  rw [hf, exec_bind_of_ok h, exec_ask]
  exact ⟨_, _, _, rfl⟩

-- The command with which a watch is asked for, and how it ends.
def watchExchange (process : List Data → σ → ProcessEnd × σ) (directory : Path) (s : σ) :
    Exchange :=
  ⟨watchWords directory, (process (watchWords directory) s).1⟩

theorem recorded_watchWords : recorded process (watchWords directory) (s, []) =
    (answerOf (watchExchange process directory s).ending, (process (watchWords directory) s).2,
      [watchExchange process directory s]) :=
  rfl

theorem exec_watchProject_given (hf : watches.find? (·.1 == directory) = none)
    (hg : (watchExchange process directory s).ending.Gives v) :
    exec (watchProject (recorded process) directory) (watches, s, []) =
      (.ok v, watches ++ [(directory, v)], (process (watchWords directory) s).2,
        [watchExchange process directory s]) := by
  have ⟨d, ha, hv⟩ := watchOf_answerOf_iff.mpr hg
  rw [exec_watchProject, hf, ← watchWords, recorded_watchWords, ha]
  simp only [hv]

theorem exec_watchProject_refused (hf : watches.find? (·.1 == directory) = none)
    (hr : ∀ v, ¬ (watchExchange process directory s).ending.Gives v) :
    ∃ e, exec (watchProject (recorded process) directory) (watches, s, []) =
      (.error e, watches, (process (watchWords directory) s).2,
        [watchExchange process directory s]) := by
  rw [exec_watchProject, hf, ← watchWords, recorded_watchWords]
  cases ha : answerOf (watchExchange process directory s).ending
  case error e => exact ⟨e, rfl⟩
  case ok d =>
    cases hv : watchOf d
    case error e => exact ⟨e, by simp only [hv]⟩
    case ok v => exact absurd (watchOf_answerOf_iff.mp ⟨d, ha, hv⟩) <| hr v

-- The watches that a client keeps are those that it was given.
def Tied (watches : Watches) (history : List Sent) : Prop :=
  ∀ directory v, watches.find? (·.1 == directory) = some (directory, v) ↔
    IsGiven history directory v

theorem tied_nil : Tied [] [] :=
  fun _ _ => by simp [IsGiven]

theorem isGiven_append {more : List Sent} : IsGiven (history ++ more) directory v ↔
    IsGiven history directory v ∨ IsGiven more directory v := by
  simp [IsGiven, or_and_right, exists_or]

theorem Tied.isGiven_iff_of_none (hk : Tied watches history)
    (hf : watches.find? (·.1 == directory) = none) (v : Watch) : ¬ IsGiven history directory v :=
  fun hg => by simp [(hk ..).mpr hg] at hf

-- Commands that ask for no watch, or are not answered with one, give none.
theorem Tied.append_sent {more : List Sent} (hk : Tied watches history)
    (hm : ∀ m ∈ more, ∀ directory v, ¬ m.Gives directory v) : Tied watches (history ++ more) := by
  intro directory v
  rw [isGiven_append, hk]
  exact (or_iff_left fun ⟨m, hmem, hg⟩ => hm m hmem directory v hg).symm

theorem not_gives_of_asks {x : Exchange} (ha : q.Asks v x.words) :
    ¬ Sent.Gives ⟨x, q⟩ directory v' :=
  fun hg => not_asks_watchWords <| hg.right.left ▸ ha

theorem isGiven_granted_iff {x y : Exchange} (hw : x.words = watchWords q.directory)
    (hg : x.ending.Gives v) (ha : q.Asks v y.words) :
    IsGiven (Turn.sent ⟨q, [x, y], result⟩) directory v' ↔ q.directory = directory ∧ v = v' := by
  constructor
  case mp =>
    rintro ⟨m, hm, hm'⟩
    obtain rfl | rfl : m = ⟨x, q⟩ ∨ m = ⟨y, q⟩ := by simpa [Turn.sent] using hm
    · exact ⟨hm'.left, gives_unique hg hm'.right.right⟩
    · exact absurd hm' <| not_gives_of_asks ha
  case mpr =>
    rintro ⟨rfl, rfl⟩
    exact ⟨⟨x, q⟩, by simp [Turn.sent], rfl, hw, hg⟩

theorem Tied.granted {more : List Sent} (hk : Tied watches history)
    (hf : watches.find? (·.1 == directory) = none)
    (hm : ∀ other v', IsGiven more other v' ↔ directory = other ∧ v = v') :
    Tied (watches ++ [(directory, v)]) (history ++ more) := by
  intro other v'
  rw [isGiven_append, hm, ← hk, List.find?_append, List.find?_singleton]
  by_cases hd : directory = other
  case pos => simp [← hd, hf]
  case neg => simp [hd]

-- One request: how its turn goes, and what the client keeps then.
theorem turn_follows (hk : Tied watches history)
    (he : exec (q.talk (recorded process)) (watches, s, []) = (result, watches', s', exchanges)) :
    Turn.Follows (IsGiven history q.directory) ⟨q, exchanges, result⟩ ∧
      Tied watches' (history ++ Turn.sent ⟨q, exchanges, result⟩) := by
  rcases hf : watches.find? (·.1 == q.directory) with _ | ⟨directory, v⟩
  case some =>
    obtain rfl : directory = q.directory := by simpa using List.find?_some hf
    have hw : exec (watchProject (recorded process) q.directory) (watches, s, []) =
        (.ok v, watches, s, []) := by
      rw [exec_watchProject, hf]
    have ⟨result', s'', ending, ht⟩ := exec_talk_of_ok hw
    cases he.symm.trans ht
    have ha := asks_words q v
    refine ⟨.watched ((hk ..).mp hf) ha, hk.append_sent fun m hm directory v' => ?_⟩
    obtain rfl := List.mem_singleton.mp hm
    exact not_gives_of_asks ha
  case none =>
    have hn := hk.isGiven_iff_of_none hf
    by_cases hg : ∃ v, (watchExchange process q.directory s).ending.Gives v
    case neg =>
      have ⟨e, hw⟩ := exec_watchProject_refused hf <| not_exists.mp hg
      cases he.symm.trans <| exec_talk_of_error hw
      refine ⟨.refused hn rfl <| not_exists.mp hg, hk.append_sent fun m hm directory v' hm' => ?_⟩
      obtain rfl := List.mem_singleton.mp hm
      exact hg ⟨v', hm'.right.right⟩
    case pos =>
      have ⟨v, hv⟩ := hg
      have ⟨result', s'', ending, ht⟩ := exec_talk_of_ok <| exec_watchProject_given hf hv
      cases he.symm.trans ht
      have ha := asks_words q v
      exact ⟨.granted hn rfl hv ha, hk.granted hf fun _ _ => isGiven_granted_iff rfl hv ha⟩

theorem turns_requests : (turns process requests watches s).map Turn.request = requests := by
  induction requests generalizing watches s
  case nil => rfl
  case cons q requests hi => rw [turns, List.map_cons, hi]

theorem turns_follow (hk : Tied watches history) {done rest : List Turn}
    (he : turns process requests watches s = done ++ t :: rest) :
    t.Follows (IsGiven (history ++ done.flatMap Turn.sent) t.request.directory) := by
  induction requests generalizing watches s history done
  case nil => simp [turns] at he
  case cons q requests hi =>
    rcases ht : exec (q.talk (recorded process)) (watches, s, []) with ⟨result, watches', s', log⟩
    have ⟨hq, hk'⟩ := turn_follows hk ht
    rw [turns, ht] at he
    dsimp only at he
    cases done
    case nil =>
      obtain rfl : _ = t := (List.cons.inj he).left
      simpa using hq
    case cons first done =>
      obtain ⟨rfl, hr⟩ := List.cons.inj he
      simpa using hi hk' hr

theorem exists_turn {ts : List Turn} (h : ts.flatMap Turn.sent = before ++ m :: after) :
    ∃ done t rest earlier later, ts = done ++ t :: rest ∧ t.sent = earlier ++ m :: later ∧
      before = done.flatMap Turn.sent ++ earlier := by
  induction ts generalizing before
  case nil => simp at h
  case cons t ts hi =>
    rw [List.flatMap_cons] at h
    obtain ⟨mid, hs, _⟩ | ⟨mid, rfl, hm⟩ := append_eq_append_cons h
    case inl => exact ⟨[], t, ts, before, mid, rfl, hs, rfl⟩
    case inr =>
      have ⟨done, t', rest, earlier, later, he, hs, hb⟩ := hi hm
      exact ⟨t :: done, t', rest, earlier, later, by rw [he]; rfl, hs, by simp [hb]⟩

-- A command asks for a watch while none is given, or names one that is given.
theorem Turn.Follows.command {given : Watch → Prop} (h : t.Follows given)
    (hs : t.sent = before ++ m :: after) : m.request = t.request ∧
      (m.words = watchWords t.request.directory ∧ before = [] ∧ (∀ v, ¬ given v) ∨
        ∃ v, (given v ∨ ∃ m' ∈ before, m'.Gives t.request.directory v) ∧
          t.request.Asks v m.words) := by
  -- A turn has at most two commands, so the one in question is its first or its second.
  cases h
  case watched q x v result hv ha =>
    rcases before with _ | ⟨m₁, before⟩ <;> simp [Turn.sent] at hs
    obtain ⟨rfl, _⟩ := hs
    exact ⟨rfl, .inr ⟨v, .inl hv, ha⟩⟩
  case refused q x e hn hw hr =>
    rcases before with _ | ⟨m₁, before⟩ <;> simp [Turn.sent] at hs
    obtain ⟨rfl, _⟩ := hs
    exact ⟨rfl, .inl ⟨hw, rfl, hn⟩⟩
  case granted q x y v result hn hw hg ha =>
    rcases before with _ | ⟨m₁, _ | ⟨m₂, before⟩⟩ <;> simp [Turn.sent] at hs
    case nil =>
      obtain ⟨rfl, _⟩ := hs
      exact ⟨rfl, .inl ⟨hw, rfl, hn⟩⟩
    case cons.nil =>
      obtain ⟨rfl, rfl, _⟩ := hs
      exact ⟨rfl, .inr ⟨v, .inr ⟨_, .head _, rfl, hw, hg⟩, ha⟩⟩

theorem pairwise_of_splits {α : Type} {R : α → α → Prop} {l : List α}
    (h : ∀ before a after, l = before ++ a :: after → ∀ a' ∈ before, R a' a) : l.Pairwise R := by
  induction l using List.reverseRecOn
  case nil => exact .nil
  case append_singleton l a hi =>
    rw [List.pairwise_append]
    refine ⟨hi fun before a' after he => h before a' (after ++ [a]) (by simp [he]),
      List.pairwise_singleton .., fun a' ha b hb => ?_⟩
    obtain rfl := List.mem_singleton.mp hb
    exact h l b [] rfl a' ha

theorem turns_goOn : GoesOn (turns process requests [] s) :=
  fun _ _ _ he => turns_follow tied_nil he

theorem GoesOn.namesGiven {ts : List Turn} (h : GoesOn ts) : NamesGiven (ts.flatMap Turn.sent) := by
  intro before m after he
  obtain ⟨done, t, rest, earlier, later, ht, hs, rfl⟩ := exists_turn he
  have ⟨hq, hm⟩ := (h done t rest ht).command hs
  rw [hq]
  obtain ⟨hw, rfl, hn⟩ | ⟨v, hv, ha⟩ := hm
  case inl => exact .inl ⟨hw, by simpa using hn⟩
  case inr => exact .inr ⟨v, isGiven_append.mpr hv, ha⟩

theorem NamesGiven.pairwise (h : NamesGiven history) : history.Pairwise fun m m' =>
    ¬ ((∃ v, m.Gives directory v) ∧ ∃ v, m'.Gives directory v) := by
  refine pairwise_of_splits fun before m after he m' hm' ⟨⟨v', hg'⟩, ⟨v, hd, hw, _⟩⟩ => ?_
  subst hd
  obtain ⟨_, hn⟩ | ⟨_, _, ha⟩ := h before m after he
  case inl => exact hn v' ⟨m', hm', hg'⟩
  case inr => exact not_asks_watchWords (hw ▸ ha)

end Turns

-- Of all commands for a directory at most one gives a watch, whatever the service answers. Until
-- then each request for the directory asks for a watch, and ends there if it gets none; from then
-- on each names the watch that was given.
theorem watched_once (process : List Data → σ → ProcessEnd × σ) (requests : List Request) (s : σ) :
    let turns := turns process requests [] s
    let history := turns.flatMap Turn.sent
    turns.map Turn.request = requests ∧ GoesOn turns ∧ NamesGiven history ∧
      ∀ directory, history.Pairwise fun m m' =>
        ¬ ((∃ v, m.Gives directory v) ∧ ∃ v, m'.Gives directory v) := by
  have hg : GoesOn (turns process requests [] s) := turns_goOn
  exact ⟨turns_requests, hg, hg.namesGiven, fun _ => hg.namesGiven.pairwise⟩

-- A service that refuses the first watch.
example :
    let printed (output : String) : ProcessEnd := .exited 0 output ""
    let process (_ : List Data) (first : Bool) : ProcessEnd × Bool :=
      (printed <| if first then "\x7b\"error\": \"busy\"\x7d" else
        "\x7b\"watch\": \"/app\", \"clock\": \"c:1\"\x7d", false)
    let request := Request.clock ⟨"/", ["app", "src"]⟩
    (turns process [request, request, request] [] true).map
        (·.exchanges.map (·.words.map Data.display)) =
      [[["watch-project", "/app/src"]],
        [["watch-project", "/app/src"], ["clock", "/app"]],
        [["clock", "/app"]]] := by
  decide +kernel

end Watchman

end GraphqlArtifacts
