import LightPeer.Proofs.Toml
import LightPeer.Settings.File

/-! # Which settings are accepted

Values that are left out are filled in first, and the rules are checked afterwards, one
after the other. So the settings are what was given with the usual values for the rest,
or the report is about the first rule that these values break. -/

namespace LightPeer

/-- The bytes that a text is written in. -/
def Bytes.ofText (text : String) : Bytes := text.toUTF8.data.toList

namespace Settings

/-! ## The rules -/

/-- The rules for settings, each with the name of the value that it is about. -/
inductive Rule where
  | tickInterval
  | responseTimeout
  | blockQueueSize

namespace Rule

def Holds (settings : Settings) : Rule → Prop
  | tickInterval => 0 < settings.tickInterval
  | responseTimeout => settings.tickInterval ≤ settings.responseTimeout
  | blockQueueSize => 0 < settings.blockQueueSize

/-- The rules that are checked before one. -/
def earlier : Rule → List Rule
  | tickInterval => []
  | responseTimeout => [tickInterval]
  | blockQueueSize => [tickInterval, responseTimeout]

/-- The rule is the first one that the settings break. -/
structure BrokenFirst (settings : Settings) (rule : Rule) : Prop where
  broken : ¬ rule.Holds settings
  earlier_hold : ∀ other ∈ rule.earlier, other.Holds settings

/-- The report of a broken rule, with the value that breaks it. -/
def report (settings : Settings) : Rule → SettingsError
  | tickInterval => .badField "stall_tick_interval_ms" s!"{settings.tickInterval}"
  | responseTimeout => .badField "stall_response_timeout_ms"
      s!"{settings.responseTimeout} (must be at least stall_tick_interval_ms)"
  | blockQueueSize => .badField "block_queue_size" s!"{settings.blockQueueSize}"

end Rule

variable {fields : Fields} {settings : Settings} {rule : Rule} {error : SettingsError}

/-- Settings that are not sound break some rule first. -/
theorem sound_or_brokenFirst (settings : Settings) :
    settings.Sound ∨ ∃ rule : Rule, rule.BrokenFirst settings := by
  by_cases hinterval : 0 < settings.tickInterval
  · by_cases htimeout : settings.tickInterval ≤ settings.responseTimeout
    · by_cases hsize : 0 < settings.blockQueueSize
      · exact .inl ⟨hinterval, htimeout, hsize⟩
      · exact .inr ⟨.blockQueueSize, hsize, by simp [Rule.earlier, Rule.Holds, hinterval, htimeout]⟩
    · exact .inr ⟨.responseTimeout, htimeout, by simp [Rule.earlier, Rule.Holds, hinterval]⟩
  · exact .inr ⟨.tickInterval, hinterval, by simp [Rule.earlier]⟩

/-! ## Checking -/

theorem ofFields_of_sound (h : fields.complete.Sound) : ofFields fields = .ok fields.complete := by
  obtain ⟨hinterval, htimeout, hsize⟩ := h
  unfold ofFields
  rw [if_neg (Nat.ne_of_gt hinterval), if_neg (Nat.not_lt.mpr htimeout),
    if_neg (Nat.ne_of_gt hsize)]

theorem ofFields_of_brokenFirst (h : rule.BrokenFirst fields.complete) :
    ofFields fields = .error (rule.report fields.complete) := by
  obtain ⟨hbroken, hearlier⟩ := h
  unfold ofFields
  cases rule with
  | tickInterval =>
      have hzero : fields.complete.tickInterval = 0 := Nat.eq_zero_of_not_pos hbroken
      rw [if_pos hzero]
      simp only [Rule.report, hzero]
      rfl
  | responseTimeout =>
      have hinterval : 0 < fields.complete.tickInterval :=
        hearlier .tickInterval (by simp [Rule.earlier])
      rw [if_neg (Nat.ne_of_gt hinterval), if_pos (Nat.lt_of_not_le hbroken)]
      rfl
  | blockQueueSize =>
      have hinterval : 0 < fields.complete.tickInterval :=
        hearlier .tickInterval (by simp [Rule.earlier])
      have htimeout : fields.complete.tickInterval ≤ fields.complete.responseTimeout :=
        hearlier .responseTimeout (by simp [Rule.earlier])
      have hzero : fields.complete.blockQueueSize = 0 := Nat.eq_zero_of_not_pos hbroken
      rw [if_neg (Nat.ne_of_gt hinterval), if_neg (Nat.not_lt.mpr htimeout), if_pos hzero]
      simp only [Rule.report, hzero]
      rfl

/-- An interval beyond the usual timeout is refused if no other timeout is given. -/
theorem ofFields_of_late {interval : Nat} (hinterval : fields.tickInterval = some interval)
    (hlate : 30000 < interval) (hnone : fields.responseTimeout = none) :
    ofFields fields = .error (.badField "stall_response_timeout_ms"
      "30000 (must be at least stall_tick_interval_ms)") := by
  have htick : fields.complete.tickInterval = interval := by simp [Fields.complete, hinterval]
  have htimeout : fields.complete.responseTimeout = 30000 := by simp [Fields.complete, hnone]
  have hfirst : Rule.responseTimeout.BrokenFirst fields.complete := by
    constructor
    · simp only [Rule.Holds, htick, htimeout]
      omega
    · simp only [Rule.earlier, List.forall_mem_singleton, Rule.Holds, htick]
      omega
  rw [ofFields_of_brokenFirst hfirst]
  simp only [Rule.report, htimeout]
  rfl

theorem ofFields_eq_ok_iff :
    ofFields fields = .ok settings ↔ settings = fields.complete ∧ settings.Sound := by
  constructor
  · intro hok
    rcases sound_or_brokenFirst fields.complete with hsound | ⟨rule, hfirst⟩
    · rw [ofFields_of_sound hsound] at hok
      obtain rfl := Except.ok.inj hok
      exact ⟨rfl, hsound⟩
    · rw [ofFields_of_brokenFirst hfirst] at hok
      exact nomatch hok
  · rintro ⟨rfl, hsound⟩
    exact ofFields_of_sound hsound

theorem ofFields_eq_error_iff : ofFields fields = .error error ↔
    ∃ rule : Rule, rule.BrokenFirst fields.complete ∧ error = rule.report fields.complete := by
  constructor
  · intro herror
    rcases sound_or_brokenFirst fields.complete with hsound | ⟨rule, hfirst⟩
    · rw [ofFields_of_sound hsound] at herror
      exact nomatch herror
    · rw [ofFields_of_brokenFirst hfirst] at herror
      exact ⟨rule, hfirst, (Except.error.inj herror).symm⟩
  · rintro ⟨rule, hfirst, rfl⟩
    exact ofFields_of_brokenFirst hfirst

/-! ## Texts -/

theorem ofText_eq_ok_iff {text : String} :
    ofText text = .ok settings ↔
      ∃ fields, Fields.ofText? text = some fields ∧ ofFields fields = .ok settings := by
  unfold ofText
  cases hfields : Fields.ofText? text <;> simp

theorem sound_of_ofText {text : String} (h : ofText text = .ok settings) : settings.Sound := by
  obtain ⟨fields, -, hok⟩ := ofText_eq_ok_iff.mp h
  exact (ofFields_eq_ok_iff.mp hok).2

theorem ofFields_toFields (h : settings.Sound) : ofFields settings.toFields = .ok settings :=
  ofFields_eq_ok_iff.mpr ⟨rfl, h⟩

/-- Every value can be written as a number of a text. -/
structure Fit (settings : Settings) : Prop where
  tickInterval : settings.tickInterval ≤ Toml.maxValue
  responseTimeout : settings.responseTimeout ≤ Toml.maxValue
  blockQueueSize : settings.blockQueueSize ≤ Toml.maxValue

/-- A text with the three values of settings. -/
def document (settings : Settings) : String :=
  Toml.document [("stall_tick_interval_ms", settings.tickInterval),
    ("stall_response_timeout_ms", settings.responseTimeout),
    ("block_queue_size", settings.blockQueueSize)]

theorem isBare_names : ∀ name ∈ ["stall_tick_interval_ms", "stall_response_timeout_ms",
    "block_queue_size"], Toml.IsBare name := by
  have hname : ∀ name ∈ ["stall_tick_interval_ms", "stall_response_timeout_ms",
    "block_queue_size"], name.toList ≠ [] ∧ name.toList.all Toml.isWordChar := by decide
  intro name hmem
  exact ⟨(hname name hmem).1, List.all_eq_true.mp (hname name hmem).2⟩

theorem ofText?_document (h : settings.Fit) :
    Fields.ofText? settings.document = some settings.toFields := by
  unfold Fields.ofText? document
  rw [Toml.entries?_document]
  · rfl
  · simpa using isBare_names
  · simpa using ⟨h.tickInterval, h.responseTimeout, h.blockQueueSize⟩

theorem Fit.give? {entry : Toml.Entry} {next : Fields} (h : fields.complete.Fit)
    (hentry : entry.2 ≤ Toml.maxValue) (hgive : fields.give? entry = some next) :
    next.complete.Fit := by
  unfold Fields.give? at hgive
  split at hgive
  case h_1 => exact nomatch hgive
  case h_2 key value =>
    have hvalue : value ≤ Toml.maxValue := Int.ofNat_le.mp hentry
    split at hgive
    case h_1 =>
      obtain rfl := Option.some.inj hgive
      exact ⟨hvalue, h.responseTimeout, h.blockQueueSize⟩
    case h_2 =>
      obtain rfl := Option.some.inj hgive
      exact ⟨h.tickInterval, hvalue, h.blockQueueSize⟩
    case h_3 =>
      obtain rfl := Option.some.inj hgive
      exact ⟨h.tickInterval, h.responseTimeout, hvalue⟩
    case h_4 => exact nomatch hgive

theorem Fit.foldlM_give? {entries : List Toml.Entry} {last : Fields} (h : fields.complete.Fit)
    (hentries : ∀ entry ∈ entries, entry.2 ≤ Toml.maxValue)
    (hgive : entries.foldlM Fields.give? fields = some last) : last.complete.Fit := by
  induction entries generalizing fields with
  | nil =>
      obtain rfl := Option.some.inj hgive
      exact h
  | cons entry entries ih =>
      obtain ⟨hentry, hentries⟩ := List.forall_mem_cons.mp hentries
      rw [List.foldlM_cons] at hgive
      obtain ⟨next, hnext, hlast⟩ := Option.bind_eq_some_iff.mp hgive
      exact ih (h.give? hentry hnext) hentries hlast

theorem fit_of_ofText {text : String} (h : ofText text = .ok settings) : settings.Fit := by
  obtain ⟨fields, hfields, hok⟩ := ofText_eq_ok_iff.mp h
  obtain ⟨rfl, -⟩ := ofFields_eq_ok_iff.mp hok
  obtain ⟨entries, hentries, hgive⟩ := Option.bind_eq_some_iff.mp hfields
  have husual : ({} : Fields).complete.Fit := ⟨by decide, by decide, by decide⟩
  exact husual.foldlM_give? (Toml.le_maxValue_of_entries? hentries) hgive

/-! ## Files -/

/-- What is read from the bytes of a text is what the text says. -/
theorem ofContent_ofText (text : String) : ofContent (.ok (Bytes.ofText text)) = ofText text := by
  have hbytes : (⟨(Bytes.ofText text).toArray⟩ : ByteArray) = text.toByteArray := rfl
  have hread : String.fromUTF8? text.toByteArray = some text := by
    unfold String.fromUTF8?
    exact dif_pos text.isValidUTF8
  unfold ofContent
  simp only [bind, Except.bind, hbytes, hread]
  rfl

/-- A file of any content, in the working directory. -/
theorem read_single (root : List FileNode) (content : Bytes) :
    FileNode.read root [.directory [("a", .file content)]] "a" = .ok content := by
  have hzero : "a".contains '\x00' = false := by simp
  have hslash : "a".startsWith "/" = false := by decide +kernel
  have hparts : "a".splitOn "/" = ["a"] := by
    unfold String.splitOn
    rw [if_neg (by decide), String.splitOnAux, if_neg (by decide), if_neg (by decide),
      String.splitOnAux, if_pos (by decide)]
    decide +kernel
  unfold FileNode.read
  simp only [hzero, hslash, hparts, List.foldlM_cons]
  rfl

/-! ## The whole check -/

/-- What comes of some values, and of the settings that they are together with the usual
values for the rest. -/
structure Checked (fields : Fields) (filled : Settings) : Prop where
  accepted_iff : ∀ settings, ofFields fields = .ok settings ↔ settings = filled ∧ filled.Sound
  refused_iff : ∀ error, ofFields fields = .error error ↔
    ∃ rule : Rule, rule.BrokenFirst filled ∧ error = rule.report filled
  /-- The usual timeout is checked like a given one. -/
  late : ∀ interval, fields.tickInterval = some interval → 30000 < interval →
    fields.responseTimeout = none →
    ofFields fields = .error (.badField "stall_response_timeout_ms"
      "30000 (must be at least stall_tick_interval_ms)")
  again : ∀ settings, ofFields fields = .ok settings → ofFields settings.toFields = .ok settings

/-- What comes of a text, and of a file that holds it. -/
structure Loaded (text : String) : Prop where
  sound : ∀ settings, ofText text = .ok settings → settings.Sound
  again : ∀ settings, ofText text = .ok settings → ofText settings.document = .ok settings
  stored : ∀ root, ∃ working path, FileNode.read root working path = .ok (Bytes.ofText text)
  ofFile_eq : ∀ root working path, FileNode.read root working path = .ok (Bytes.ofText text) →
    ofFile root working path = ofText text

/-- The settings are the given values with the usual ones for the rest if these keep all
rules, and otherwise the report names the first rule that is broken. A file is read as
the text that it holds, and the settings from a text can be written down and read again. -/
theorem settings_exact (fields : Fields) (text : String) :
    let filled : Settings := ⟨fields.tickInterval.getD 15000, fields.responseTimeout.getD 30000,
      fields.blockQueueSize.getD 500⟩
    Checked fields filled ∧ Loaded text := by
  intro filled
  have hfilled : fields.complete = filled := rfl
  constructor
  · constructor
    case accepted_iff =>
      intro settings
      rw [ofFields_eq_ok_iff, hfilled]
      exact and_congr_right fun heq => by rw [heq]
    case refused_iff =>
      intro error
      rw [ofFields_eq_error_iff, hfilled]
    case late =>
      intro interval hinterval hlate hnone
      exact ofFields_of_late hinterval hlate hnone
    case again =>
      intro settings hok
      obtain ⟨rfl, hsound⟩ := ofFields_eq_ok_iff.mp hok
      exact ofFields_toFields hsound
  · constructor
    case sound =>
      intro settings hok
      exact sound_of_ofText hok
    case again =>
      intro settings hok
      exact ofText_eq_ok_iff.mpr
        ⟨_, ofText?_document (fit_of_ofText hok), ofFields_toFields (sound_of_ofText hok)⟩
    case stored =>
      intro root
      exact ⟨_, _, read_single root _⟩
    case ofFile_eq =>
      intro root working path hread
      unfold ofFile
      rw [hread, ofContent_ofText]

example : ofFields { blockQueueSize := some 0, tickInterval := some 40000 } =
    .error (.badField "stall_response_timeout_ms"
      "30000 (must be at least stall_tick_interval_ms)") := rfl

end Settings

end LightPeer
