import CoalescingQueue.Config.Settings
import CoalescingQueue.Proofs.Encoding
import CoalescingQueue.Proofs.Numerals
import CoalescingQueue.Queue.State

/-!
# What the environment configures

Each setting is decided by its own variable, or by a default if that variable is no text. Only a
capacity can be refused, and it is refused exactly if its text spells no number from one up to the
limit of a word. A mailbox is made for fewer slots than that, so among the capacities that are
accepted there are some for which no queue can be opened.
-/
namespace CoalescingQueue

variable {env : Environment} {name default text raw : String} {settings : Settings} {n : Nat}

/-! ## Variables -/

namespace Environment

/-- A variable is set to this text, written in UTF-8. -/
def Says (env : Environment) (name text : String) : Prop :=
  ∃ bytes, env.bytes? name = some bytes ∧ bytes.toByteArray = text.toUTF8

/-- The text of a variable, or the default if it has none. -/
inductive Gives (env : Environment) (name default : String) : String → Prop
  | said {text : String} (h : env.Says name text) : Gives env name default text
  | unsaid (h : ∀ text, ¬ env.Says name text) : Gives env name default default

theorem text?_eq_some_iff {bytes : List UInt8} :
    Text.text? bytes = some text ↔ bytes.toByteArray = text.toUTF8 := by
  unfold Text.text?
  constructor
  · split
    · next cs hcs =>
      rintro ⟨⟩
      rw [Text.decode_eq_ok_iff.mp hcs]
      rfl
    · exact nofun
  · intro h
    rw [Text.decode_eq_ok_iff.mpr (Text.eq_encode_of_toByteArray h)]
    dsimp only
    rw [String.ofList_toList]

theorem says_iff : env.Says name text ↔ env.text? name = some text := by
  unfold Says Environment.text?
  rw [Option.bind_eq_some_iff]
  exact exists_congr fun bytes => and_congr_right fun _ => text?_eq_some_iff.symm

theorem says_encode (name text : String) :
    Says [(name, Text.encode text.toList)] name text :=
  ⟨_, List.lookup_cons_self, String.utf8Encode_toList⟩

theorem gives_iff : env.Gives name default text ↔ (env.text? name).getD default = text := by
  constructor
  · rintro (h | h)
    · rw [says_iff.mp h, Option.getD_some]
    · rw [Option.eq_none_iff_forall_ne_some.mpr fun text htext => h text (says_iff.mpr htext),
        Option.getD_none]
  · rintro rfl
    cases htext : env.text? name with
    | some text => exact .said (says_iff.mpr htext)
    | none =>
      refine .unsaid fun text hsays => ?_
      rw [says_iff.mp hsays] at htext
      contradiction

theorem Gives.unique {other : String} (h : env.Gives name default text)
    (h' : env.Gives name default other) : text = other :=
  (gives_iff.mp h).symm.trans (gives_iff.mp h')

end Environment

/-! ## Capacities -/

/-- The text spells a number that a capacity can be. -/
structure SpellsCapacity (raw : String) (n : Nat) : Prop where
  spells : Text.SpellsNumber raw.toList n
  pos : 1 ≤ n
  le : n ≤ 2 ^ 64 - 1

/-- The number that the variable spells, or a hundred if it is no text. -/
inductive Environment.GivesCapacity (env : Environment) : Nat → Prop
  | said {raw : String} {n : Nat} (h : env.Says "JOBQUEUE_CAPACITY" raw)
      (hn : SpellsCapacity raw n) : GivesCapacity env n
  | unsaid (h : ∀ raw, ¬ env.Says "JOBQUEUE_CAPACITY" raw) : GivesCapacity env 100

theorem Environment.GivesCapacity.spells (h : env.GivesCapacity n)
    (hraw : env.Says "JOBQUEUE_CAPACITY" raw) : SpellsCapacity raw n := by
  cases h with
  | said hraw' hn =>
    rw [Environment.says_iff] at hraw hraw'
    obtain rfl := Option.some.inj (hraw.symm.trans hraw')
    exact hn
  | unsaid hnone => exact absurd hraw (hnone raw)

namespace QueueConfig

theorem readNumeral_trim_eq_ok_iff :
    Text.readNumeral Text.wordLimit (Text.trim raw.toList) = .ok n ↔
      Text.SpellsNumber raw.toList n ∧ n ≤ 2 ^ 64 - 1 := by
  rw [Text.readNumeral_eq_ok_iff (by decide), Text.denotes_trim_iff]
  exact and_congr_right fun _ => Nat.lt_iff_le_pred (by decide)

theorem capacityOfText?_eq_ok_iff {capacity : { n : Nat // 0 < n }} :
    capacityOfText? raw = .ok capacity ↔ SpellsCapacity raw capacity.val := by
  unfold capacityOfText?
  constructor
  · intro h
    split at h
    · contradiction
    · next n hn =>
      obtain ⟨hspells, hle⟩ := readNumeral_trim_eq_ok_iff.mp hn
      split at h
      · next hpos =>
        obtain rfl := Except.ok.inj h
        exact ⟨hspells, hpos, hle⟩
      · contradiction
  · rintro ⟨hspells, hpos, hle⟩
    rw [readNumeral_trim_eq_ok_iff.mpr ⟨hspells, hle⟩]
    exact dif_pos hpos

theorem capacityOfText?_of_spells (h : SpellsCapacity raw n) :
    capacityOfText? raw = .ok ⟨n, h.pos⟩ := capacityOfText?_eq_ok_iff.mpr h

/-- A text that is refused is quoted. -/
theorem message_of_capacityOfText? {fault : CapacityFault}
    (h : capacityOfText? raw = .error fault) :
    ∃ reason, fault.message = CapacityFault.badSpelling raw reason := by
  unfold capacityOfText? at h
  split at h
  · next reason _ =>
    obtain rfl := Except.error.inj h
    exact ⟨reason.message, rfl⟩
  · split at h
    · contradiction
    · obtain rfl := Except.error.inj h
      exact ⟨_, rfl⟩

theorem exists_spellsCapacity_iff : (∃ n, SpellsCapacity raw n) ↔
    ∃ capacity, capacityOfText? raw = .ok capacity :=
  ⟨fun ⟨_, hn⟩ => ⟨_, capacityOfText?_of_spells hn⟩,
    fun ⟨capacity, h⟩ => ⟨capacity.val, capacityOfText?_eq_ok_iff.mp h⟩⟩

end QueueConfig

theorem SpellsCapacity.unique {n' : Nat} (h : SpellsCapacity raw n) (h' : SpellsCapacity raw n') :
    n = n' := by
  have hread := QueueConfig.capacityOfText?_of_spells h
  have hread' := QueueConfig.capacityOfText?_of_spells h'
  exact congrArg Subtype.val (Except.ok.inj (hread.symm.trans hread'))

theorem Environment.GivesCapacity.unique {n' : Nat} (h : env.GivesCapacity n)
    (h' : env.GivesCapacity n') : n = n' := by
  cases h with
  | said hraw hn => exact hn.unique (h'.spells hraw)
  | unsaid hnone =>
    cases h' with
    | said hraw => exact absurd hraw (hnone _)
    | unsaid => rfl

/-! ## Settings -/

namespace Settings

/-- Each setting is what its own variable says. -/
structure Follows (settings : Settings) (env : Environment) : Prop where
  capacity : env.GivesCapacity settings.queue.capacity
  name : env.Gives "JOBQUEUE_NAME" "job-queue" settings.queue.name
  endpoint : ∀ text, settings.endpoint = some text ↔ env.Says "OTEL_ENDPOINT" text
  logLevel : env.Gives "LOG_LEVEL" "info" settings.logLevel

/-- The settings with this capacity. -/
def withCapacity (env : Environment) (n : Nat) (hn : 0 < n) : Settings where
  queue := ⟨(env.text? "JOBQUEUE_NAME").getD "job-queue", n, hn⟩
  endpoint := env.text? "OTEL_ENDPOINT"
  logLevel := (env.text? "LOG_LEVEL").getD "info"

theorem eq_withCapacity_iff {hn : 0 < n} :
    settings = withCapacity env n hn ↔ settings.queue.capacity = n ∧
      env.Gives "JOBQUEUE_NAME" "job-queue" settings.queue.name ∧
      (∀ text, settings.endpoint = some text ↔ env.Says "OTEL_ENDPOINT" text) ∧
      env.Gives "LOG_LEVEL" "info" settings.logLevel := by
  simp only [Environment.gives_iff, Environment.says_iff]
  constructor
  · rintro rfl
    exact ⟨rfl, rfl, fun _ => Iff.rfl, rfl⟩
  · obtain ⟨⟨name, n, hn⟩, endpoint, logLevel⟩ := settings
    rintro ⟨rfl, rfl, hendpoint, rfl⟩
    obtain rfl := Option.ext hendpoint
    rfl

theorem load_of_said (h : env.Says "JOBQUEUE_CAPACITY" raw) :
    load env = match QueueConfig.capacityOfText? raw with
      | .ok ⟨n, hn⟩ => .ok (withCapacity env n hn)
      | .error fault => .error (.configuration fault.message) := by
  unfold load ofEnvironment
  rw [Environment.says_iff.mp h]
  dsimp only
  cases QueueConfig.capacityOfText? raw <;> rfl

theorem load_of_unsaid (h : ∀ raw, ¬ env.Says "JOBQUEUE_CAPACITY" raw) :
    load env = .ok (withCapacity env 100 (Nat.succ_pos 99)) := by
  have hnone : env.text? "JOBQUEUE_CAPACITY" = none :=
    Option.eq_none_iff_forall_ne_some.mpr fun raw hraw => h raw (Environment.says_iff.mpr hraw)
  unfold load ofEnvironment
  rw [hnone]
  rfl

theorem load_eq_ok_iff : load env = .ok settings ↔ settings.Follows env := by
  constructor
  · intro h
    by_cases hsaid : ∃ raw, env.Says "JOBQUEUE_CAPACITY" raw
    · obtain ⟨raw, hraw⟩ := hsaid
      rw [load_of_said hraw] at h
      split at h
      · next capacity hcapacity =>
        obtain ⟨hval, hname, hendpoint, hlog⟩ := eq_withCapacity_iff.mp (Except.ok.inj h).symm
        have hspells := QueueConfig.capacityOfText?_eq_ok_iff.mp hcapacity
        exact ⟨hval ▸ .said hraw hspells, hname, hendpoint, hlog⟩
      · contradiction
    · rw [load_of_unsaid (not_exists.mp hsaid)] at h
      obtain ⟨hval, hname, hendpoint, hlog⟩ := eq_withCapacity_iff.mp (Except.ok.inj h).symm
      exact ⟨hval ▸ .unsaid (not_exists.mp hsaid), hname, hendpoint, hlog⟩
  · rintro ⟨hcapacity, hname, hendpoint, hlog⟩
    generalize hval : settings.queue.capacity = n at hcapacity
    cases hcapacity with
    | said hraw hn =>
      rw [load_of_said hraw, QueueConfig.capacityOfText?_of_spells hn]
      exact congrArg _ (eq_withCapacity_iff.mpr ⟨hval, hname, hendpoint, hlog⟩).symm
    | unsaid hnone =>
      rw [load_of_unsaid hnone]
      exact congrArg _ (eq_withCapacity_iff.mpr ⟨hval, hname, hendpoint, hlog⟩).symm

/-- An error is about a capacity that is no number, and quotes it. -/
theorem exists_of_load_eq_error {e : Error} (h : load env = .error e) :
    ∃ raw reason, env.Says "JOBQUEUE_CAPACITY" raw ∧ (¬ ∃ n, SpellsCapacity raw n) ∧
      e = .configuration (CapacityFault.badSpelling raw reason) := by
  by_cases hsaid : ∃ raw, env.Says "JOBQUEUE_CAPACITY" raw
  · obtain ⟨raw, hraw⟩ := hsaid
    rw [load_of_said hraw] at h
    split at h
    · contradiction
    · next fault hfault =>
      obtain ⟨reason, hmessage⟩ := QueueConfig.message_of_capacityOfText? hfault
      refine ⟨raw, reason, hraw, ?_, hmessage ▸ (Except.error.inj h).symm⟩
      rw [QueueConfig.exists_spellsCapacity_iff, hfault]
      exact nofun
  · rw [load_of_unsaid (not_exists.mp hsaid)] at h
    contradiction

/-- Loading fails exactly if the capacity is a text that spells no number from one up to the limit
of a word, however many digits it has, and the error quotes that text. All other environments are
followed: the capacity is the number that is spelled, and no setting looks at the variable of
another. -/
theorem load_refuses_only_capacity (env : Environment) :
    ((∃ e, load env = .error e) ↔
      ∃ raw, env.Says "JOBQUEUE_CAPACITY" raw ∧ ¬ ∃ n, SpellsCapacity raw n) ∧
    (∀ e, load env = .error e → ∃ raw reason, env.Says "JOBQUEUE_CAPACITY" raw ∧
      e = .configuration (CapacityFault.badSpelling raw reason)) ∧
    ∀ settings, load env = .ok settings ↔ settings.Follows env := by
  refine ⟨⟨?_, ?_⟩, ?_, fun settings => load_eq_ok_iff⟩
  · rintro ⟨e, he⟩
    obtain ⟨raw, -, hraw, hn, -⟩ := exists_of_load_eq_error he
    exact ⟨raw, hraw, hn⟩
  · rintro ⟨raw, hraw, hn⟩
    cases hload : load env with
    | error e => exact ⟨e, rfl⟩
    | ok settings => exact absurd ⟨_, (load_eq_ok_iff.mp hload).capacity.spells hraw⟩ hn
  · intro e he
    obtain ⟨raw, reason, hraw, -, hmessage⟩ := exists_of_load_eq_error he
    exact ⟨raw, reason, hraw, hmessage⟩

/-- Blanks, a sign and zeros around the largest capacity, and one more than that. -/
theorem load_refuses_only_capacity_overrun :
    let env := fun raw : String => [("JOBQUEUE_CAPACITY", Text.encode raw.toList)]
    (∃ settings, load (env "\u3000+000000000000000000018446744073709551615\n") = .ok settings ∧
      settings.queue.capacity = 2 ^ 64 - 1) ∧
    ∃ e, load (env "18446744073709551616") = .error e := by
  intro env
  obtain ⟨hrefused, -, -⟩ := load_refuses_only_capacity (env "18446744073709551616")
  obtain ⟨-, -, hfollowed⟩ :=
    load_refuses_only_capacity (env "\u3000+000000000000000000018446744073709551615\n")
  constructor
  · have hspells : Text.SpellsNumber "\u3000+000000000000000000018446744073709551615\n".toList
        (2 ^ 64 - 1) :=
      ⟨['\u3000'], '+' :: "000000000000000000018446744073709551615".toList, ['\n'],
        List.forall_mem_singleton.mpr rfl, List.forall_mem_singleton.mpr rfl, by decide +kernel,
        _, ⟨by decide +kernel, List.all_eq_true.mp (by decide +kernel)⟩, .inr rfl,
        by decide +kernel⟩
    refine ⟨{ queue := ⟨"job-queue", 2 ^ 64 - 1, by decide⟩ }, (hfollowed _).mpr ?_, rfl⟩
    refine ⟨.said (Environment.says_encode _ _) ⟨hspells, by decide, Nat.le_refl _⟩,
      Environment.gives_iff.mpr (by decide +kernel), fun text => ?_,
      Environment.gives_iff.mpr (by decide +kernel)⟩
    rw [Environment.says_iff]
    rfl
  · refine hrefused.mpr ⟨"18446744073709551616", Environment.says_encode _ _, ?_⟩
    rw [QueueConfig.exists_spellsCapacity_iff]
    rintro ⟨capacity, hcapacity⟩
    have hread : QueueConfig.capacityOfText? "18446744073709551616" =
        .error (.unreadable "18446744073709551616" .tooLarge) := by decide +kernel
    rw [hread] at hcapacity
    contradiction

end Settings

/-! ## Queues -/

/-- How a configuration comes to be accepted for a name and a capacity: they are given as they are,
or the environment gives them. -/
inductive QueueConfig.IsAccepted (name : String) (capacity : Nat) : QueueConfig → Prop
  | made {config : QueueConfig} (h : ofCapacity? name capacity = .ok config) :
      IsAccepted name capacity config
  | loaded {env : Environment} {settings : Settings} (h : Settings.load env = .ok settings)
      (hname : env.Gives "JOBQUEUE_NAME" "job-queue" name)
      (hcapacity : env.GivesCapacity capacity) : IsAccepted name capacity settings.queue

theorem QueueConfig.IsAccepted.eqs {name : String} {capacity : Nat} {config : QueueConfig}
    (h : config.IsAccepted name capacity) : config.name = name ∧ config.capacity = capacity := by
  cases h with
  | made h =>
    unfold ofCapacity? at h
    split at h
    · obtain rfl := Except.ok.inj h
      exact ⟨rfl, rfl⟩
    · contradiction
  | loaded h hname hcapacity =>
    have hfollows := Settings.load_eq_ok_iff.mp h
    exact ⟨hfollows.name.unique hname, hfollows.capacity.unique hcapacity⟩

namespace Queue

/-- A queue as it is before anything happens to it. -/
structure IsNew (q : Queue) (name : String) (capacity : Nat) : Prop where
  name_eq : q.config.name = name
  capacity_eq : q.config.capacity = capacity
  published : q.published = .idle
  running : q.isStopped = false
  stats : q.stats = {}
  buffer : q.mailbox.buffer = []
  free : q.mailbox.free = capacity

/-- What is accepted for a name and a capacity makes a new queue of that name and that capacity,
which is idle. Only a capacity of more slots than a mailbox can have makes none, although it is
accepted. -/
theorem opens_to_limit {name : String} {capacity : Nat} {config : QueueConfig}
    (h : config.IsAccepted name capacity) (hooks : List Hook) :
    (capacity ≤ 2 ^ 61 - 1 → ∃ q, open? config hooks = some q ∧ q.IsNew name capacity) ∧
      (2 ^ 61 ≤ capacity → open? config hooks = none) := by
  obtain ⟨rfl, rfl⟩ := h.eqs
  have hmax : QueueConfig.maxCapacity = 2 ^ 61 - 1 := rfl
  constructor
  · intro hle
    exact ⟨_, if_pos (hle.trans_eq hmax.symm), rfl, rfl, rfl, rfl, rfl, rfl, rfl⟩
  · intro hge
    exact if_neg (by omega)

/-- The largest capacity that works, spelled and as a number. -/
theorem opens_to_limit_brim :
    let env : Environment := [("JOBQUEUE_CAPACITY", Text.encode " +2305843009213693951".toList)]
    (∃ settings q, Settings.load env = .ok settings ∧ open? settings.queue = some q ∧
      q.IsNew "job-queue" (2 ^ 61 - 1)) ∧
    ∃ config q, QueueConfig.ofCapacity? "brim" (2 ^ 61 - 1) = .ok config ∧
      open? config = some q ∧ q.IsNew "brim" (2 ^ 61 - 1) := by
  intro env
  constructor
  · have hload : Settings.load env =
        .ok { queue := ⟨"job-queue", 2 ^ 61 - 1, by decide⟩ } := by decide +kernel
    have hfollows := Settings.load_eq_ok_iff.mp hload
    obtain ⟨q, hq, hnew⟩ :=
      (opens_to_limit (.loaded hload hfollows.name hfollows.capacity) []).1 (Nat.le_refl _)
    exact ⟨_, q, hload, hq, hnew⟩
  · obtain ⟨q, hq, hnew⟩ := (opens_to_limit (.made rfl) []).1 (Nat.le_refl (2 ^ 61 - 1))
    exact ⟨_, q, rfl, hq, hnew⟩

/-- A capacity of one more is accepted, spelled or as a number, and then no queue can be made. -/
theorem accepted_without_queue :
    let env : Environment := [("JOBQUEUE_CAPACITY", Text.encode "2305843009213693952".toList)]
    (∃ settings, Settings.load env = .ok settings ∧ settings.queue.capacity = 2 ^ 61 ∧
      open? settings.queue = none) ∧
    ∃ config, QueueConfig.ofCapacity? "vast" (2 ^ 61) = .ok config ∧ open? config = none := by
  intro env
  constructor
  · exact ⟨{ queue := ⟨"job-queue", 2 ^ 61, by decide⟩ }, by decide +kernel, rfl, rfl⟩
  · exact ⟨⟨"vast", 2 ^ 61, by decide⟩, rfl, rfl⟩

end Queue

end CoalescingQueue
