import CachedViews.Config.Document
import CachedViews.Config.Environment
import CachedViews.Proofs.Number.Rounding
import CachedViews.Proofs.Running
import CachedViews.Service.Open
import CachedViews.WorkerPool

/-!
Which configurations keep every partial operation inside its domain. Opening an engine multiplies
out the size of a memory map, a worker's timer needs a period, and a wait is made of seconds that
went through floating point. Validation looks at the waits only: a multiplier of any value is held
between zero and the greatest wait, so no wait is out of range. A period of zero and a map that has
no size in 64 bits pass.
-/
namespace CachedViews

namespace Duration

/-- Seconds of a span that is far from the limit. -/
theorem seconds_bounded (span : Duration) {limit : Nat} (short : span.nanos / perSecond ≤ limit)
    (few : limit < 2 ^ 56) :
    ∃ units ≤ (4 * limit + 17) * Double.unitsPerOne, span.seconds = .finite false units := by
  have room := Double.units_room
  have pos := Double.units_pos
  have less : limit * Double.unitsPerOne ≤ 2 ^ 56 * Double.unitsPerOne :=
    Nat.mul_le_mul_right _ (Nat.le_of_lt few)
  have parts : span.nanos % perSecond < perSecond := Nat.mod_lt _ (by decide)
  obtain ⟨whole, wholeBound, wholeSame⟩ := Double.ofNat_bounded short (by omega)
  obtain ⟨part, partBound, partSame⟩ := Double.ofNat_bounded (Nat.le_of_lt parts) (by decide)
  have billion : Double.ofNat perSecond = .finite false (perSecond * Double.unitsPerOne) := by
    decide +kernel
  have quotient : part * Double.unitsPerOne / (perSecond * Double.unitsPerOne) ≤
      3 * Double.unitsPerOne := by
    rw [Nat.mul_div_mul_right _ _ pos]
    unfold perSecond at partBound ⊢
    omega
  obtain ⟨fraction, fractionBound, fractionSame⟩ := Double.roundUnits_bounded false
    (part * Double.unitsPerOne) (perSecond * Double.unitsPerOne) (by omega)
  rw [Nat.add_mul, Nat.one_mul, Nat.mul_assoc] at wholeBound
  have total : (whole + fraction) / 1 ≤
      2 * (limit * Double.unitsPerOne) + 8 * Double.unitsPerOne := by
    omega
  obtain ⟨units, bound, same⟩ := Double.roundUnits_bounded false (whole + fraction) 1 (by omega)
  refine ⟨units, ?_, ?_⟩
  · rw [Nat.add_mul, Nat.mul_assoc]
    omega
  · have divided : (Double.finite false part).div
        (.finite false (perSecond * Double.unitsPerOne)) = .finite false fraction := by
      rw [Double.div, if_neg (Nat.mul_ne_zero (by decide) (Nat.ne_of_gt pos)), ← fractionSame]
      rfl
    rw [seconds, wholeSame, partSame, billion, divided, Double.add_finite, same]

theorem finite_of_isSome {s : Double} (span : (ofSeconds? s).isSome) :
    ∃ negative units, s = .finite negative units := by
  cases s with
  | nan => cases span
  | infinite negative => cases span
  | finite negative units => exact ⟨negative, units, rfl⟩

theorem ofSeconds?_isSome_iff (negative : Bool) (units : Nat) :
    (ofSeconds? (.finite negative units)).isSome ↔
      (negative = true → units = 0) ∧
        Double.scaledNearest perSecond units < secondLimit * perSecond := by
  rw [ofSeconds?]
  generalize Double.scaledNearest perSecond units = nanos
  generalize secondLimit * perSecond = limit
  cases negative <;> by_cases none : units = 0 <;> simp [none]

/-- Spans of 64-bit milliseconds outlast the way to seconds and back. -/
theorem ofSeconds?_ofMillis {ms : Nat} (below : ms < Width.values 64) :
    (ofSeconds? (ofMillis ms).seconds).isSome := by
  have limit : (ofMillis ms).nanos / perSecond ≤ 2 ^ 55 := by
    have most : Width.values 64 = 2 ^ 64 := by decide
    simp only [ofMillis, perMilli, perSecond]
    omega
  obtain ⟨units, bound, same⟩ := seconds_bounded (ofMillis ms) limit (by decide)
  rw [same, ofSeconds?_isSome_iff]
  refine ⟨by simp, ?_⟩
  have pos := Double.units_pos
  rw [Double.scaledNearest]
  generalize Double.unitsPerOne = one at bound pos
  calc divNearest (units * perSecond) one
      ≤ units * perSecond / one + 1 := divNearest_le _ _
    _ ≤ (4 * 2 ^ 55 + 17) * one * perSecond / one + 1 :=
        Nat.add_le_add_right (Nat.div_le_div_right (Nat.mul_le_mul_right _ bound)) 1
    _ = (4 * 2 ^ 55 + 17) * perSecond + 1 := by
        rw [Nat.mul_right_comm, Nat.mul_div_cancel _ pos]
    _ < secondLimit * perSecond := by decide

end Duration

/-- Every wait is a span as soon as the greatest one is, whatever the multiplier and the growth. -/
theorem RetryConfig.backoffSeconds_isSome {retry : RetryConfig}
    (greatest : (Duration.ofSeconds? retry.maxBackoff.seconds).isSome) (attempt : Nat) :
    (Duration.ofSeconds? (retry.backoffSeconds attempt)).isSome := by
  obtain ⟨sign, most, same⟩ := Duration.finite_of_isSome greatest
  rw [same, Duration.ofSeconds?_isSome_iff] at greatest
  obtain ⟨positive, small⟩ := greatest
  obtain ⟨negative, units, below, held, nonnegative⟩ := Double.clamp_finite
    (retry.initialBackoff.seconds.mul
      (retry.multiplier.pow (Min.min (attempt - 1) largestExponent))) positive
  rw [← same] at held
  have clamped : retry.backoffSeconds attempt = .finite negative units := held
  rw [clamped, Duration.ofSeconds?_isSome_iff]
  exact ⟨nonnegative, Nat.lt_of_le_of_lt (Double.scaledNearest_mono _ below) small⟩

namespace Config

/-- Where configurations come from: code, a document, and the environment over another one. -/
inductive Given : Config → Prop where
  /-- Built in code, with a greatest wait that can be read back from its seconds. -/
  | built {config : Config}
    (greatest : (Duration.ofSeconds? config.pipeline.retry.maxBackoff.seconds).isSome) :
    Given config
  | parsed {source : String} {config : Config} (read : parse source = .ok config) : Given config
  | overridden {config : Config} (given : Given config) (environment : Environment) :
    Given (config.override environment)

/-- Nothing that opening and running evaluate is undefined. -/
structure InDomain (config : Config) : Prop where
  /-- A timer has a period. -/
  polls : config.pipeline.pollInterval.isZero = false
  /-- Seconds that a span is made of are neither negative nor out of range. -/
  waits : ∀ attempt,
    (Duration.ofSeconds? (config.pipeline.retry.backoffSeconds attempt)).isSome
  /-- The bytes of a memory map fit a word. -/
  maps : config.readStore.path.isSome → config.readStore.mapBytes < Width.values 64

theorem fieldOr_eq_some {α : Type} {fields : Toml.Table} {name : String} {default value : α}
    {decode : Toml → Option α} (read : fieldOr fields name default decode = some value) :
    value = default ∨ ∃ given, decode given = some value := by
  rw [fieldOr] at read
  split at read
  · exact Or.inr ⟨_, read⟩
  · exact Or.inl (Option.some.inj read).symm

theorem duration?_reads_back {value : Toml} {span : Duration} (read : duration? value = some span) :
    (Duration.ofSeconds? span.seconds).isSome := by
  obtain ⟨ms, below, rfl⟩ := Option.map_eq_some_iff.mp read
  apply Duration.ofSeconds?_ofMillis
  unfold Toml.natBelow? at below
  split at below
  · split at below
    · rename_i value fits
      cases below
      have limit : countLimit = Width.values 64 := rfl
      omega
    · cases below
  · cases below

theorem standard_reads_back :
    (Duration.ofSeconds? RetryConfig.standard.maxBackoff.seconds).isSome := by
  decide +kernel

theorem retry?_reads_back {value : Toml} {retry : RetryConfig} (read : retry? value = some retry) :
    (Duration.ofSeconds? retry.maxBackoff.seconds).isSome := by
  unfold retry? at read
  simp only [Option.bind_eq_bind, Option.bind_eq_some_iff] at read
  obtain ⟨fields, -, attempts, -, initial, -, greatest, found, multiplier, -, made⟩ := read
  cases made
  rcases fieldOr_eq_some found with rfl | ⟨given, decoded⟩
  · exact standard_reads_back
  · exact duration?_reads_back decoded

theorem pipeline?_reads_back {value : Toml} {pipeline : PipelineConfig}
    (read : pipeline? value = some pipeline) :
    (Duration.ofSeconds? pipeline.retry.maxBackoff.seconds).isSome := by
  simp only [pipeline?, Option.bind_eq_bind, Option.bind_eq_some_iff] at read
  obtain ⟨_, -, _, -, _, -, _, -, _, -, _, -, retry, found, made⟩ := read
  cases made
  rcases fieldOr_eq_some found with rfl | ⟨given, decoded⟩
  · exact standard_reads_back
  · exact retry?_reads_back decoded

theorem ofToml?_reads_back {document : Toml} {config : Config}
    (read : ofToml? document = some config) :
    (Duration.ofSeconds? config.pipeline.retry.maxBackoff.seconds).isSome := by
  simp only [ofToml?, Option.bind_eq_bind, Option.bind_eq_some_iff] at read
  obtain ⟨fields, -, mode, -, pipeline, found, store, -, log, -, made⟩ := read
  cases made
  rcases fieldOr_eq_some found with rfl | ⟨given, decoded⟩
  · exact standard_reads_back
  · exact pipeline?_reads_back decoded

theorem parse_reads_back {source : String} {config : Config} (read : parse source = .ok config) :
    (Duration.ofSeconds? config.pipeline.retry.maxBackoff.seconds).isSome := by
  rw [parse] at read
  split at read
  · cases read
  · split at read
    · cases read
    · rename_i decoded
      cases read
      exact ofToml?_reads_back decoded

theorem unsigned?_lt {limit value : Nat} {text : String}
    (read : Environment.unsigned? limit text = some value) : value < limit := by
  simp only [Environment.unsigned?] at read
  split_ifs at read with _ below
  cases read
  exact below

theorem millis_reads_back {current : Duration} (environment : Environment) (name : String)
    (reads : (Duration.ofSeconds? current.seconds).isSome) :
    (Duration.ofSeconds? (environment.millis name current).seconds).isSome := by
  rw [Environment.millis]
  cases found : (environment.get? name >>= Environment.unsigned? countLimit) with
  | none => exact reads
  | some ms =>
    obtain ⟨text, -, read⟩ := Option.bind_eq_some_iff.mp found
    exact Duration.ofSeconds?_ofMillis (unsigned?_lt read)

theorem Given.reads_back {config : Config} (given : config.Given) :
    (Duration.ofSeconds? config.pipeline.retry.maxBackoff.seconds).isSome := by
  induction given with
  | built greatest => exact greatest
  | parsed read => exact parse_reads_back read
  | overridden _ environment ih => exact millis_reads_back environment _ ih

theorem mapBytes_lt_iff (config : ReadStoreConfig) :
    config.mapBytes < Width.values 64 ↔ config.maxSizeMb < 2 ^ 44 := by
  have words : Width.values 64 = 2 ^ 44 * 1024 * 1024 := by decide
  rw [ReadStoreConfig.mapBytes]
  omega

/-- Without a period the pool has no ticks: it only lets time pass. -/
theorem run_of_unpolled {engine : Engine} (never : engine.pipeline.pollInterval.isZero = true)
    (span : Duration) (world : World) :
    (WorkerPool.run engine span).on world =
      (.ok world.metrics, { world with now := world.now.add span }) := by
  have none : WorkerPool.ticks engine.pipeline.pollInterval span = 0 := by
    rw [WorkerPool.ticks, if_pos never]
  rw [WorkerPool.run, Action.on_bind_ok (Action.on_get world)]
  dsimp only
  rw [none]
  rfl

/-- Whatever the multiplier, waits never leave their range. The rest is defined exactly for a poll
interval that is not zero and, where views are kept in a directory, a size of less than 2⁴⁴
megabytes; validation asks for neither. A pool without a period takes nothing from its queue. -/
theorem in_domain_iff {config : Config} (given : config.Given) :
    (∀ attempt, (Duration.ofSeconds? (config.pipeline.retry.backoffSeconds attempt)).isSome) ∧
      (config.InDomain ↔ config.pipeline.pollInterval ≠ .zero ∧
        (config.readStore.path.isSome → config.readStore.maxSizeMb < 2 ^ 44)) ∧
      (config.pipeline.pollInterval = .zero → ∀ registry span world,
        (WorkerPool.run (.ofConfig config registry) span).on world =
          (.ok world.metrics, { world with now := world.now.add span })) := by
  have waits := RetryConfig.backoffSeconds_isSome given.reads_back
  have period : config.pipeline.pollInterval.isZero = false ↔
      config.pipeline.pollInterval ≠ .zero := by
    rw [Duration.isZero, decide_eq_false_iff_not, Ne, not_iff_not, Duration.zero,
      Duration.mk.injEq]
  refine ⟨waits, ⟨fun domain => ⟨period.mp domain.polls, fun kept =>
    (mapBytes_lt_iff _).mp (domain.maps kept)⟩, fun ⟨polled, fits⟩ =>
    ⟨period.mpr polled, waits, fun kept => (mapBytes_lt_iff _).mpr (fits kept)⟩⟩, ?_⟩
  intro never registry span world
  apply run_of_unpolled
  change config.pipeline.pollInterval.isZero = true
  rw [never]
  rfl

/-- Where views are kept in memory there is nothing to attach. -/
theorem openEngineOn_of_validate {config : Config} (attach : Service.Attach) (registry : Registry)
    (accepted : config.validate = .ok ()) (memory : config.readStore.path = none) :
    Service.openEngineOn attach config registry =
      .ok (.ofConfig config registry, Service.start config) := by
  rw [Service.openEngineOn, accepted, Service.attachViews, memory]
  rfl

/-- Views in a directory by the document, the poll interval from the environment. -/
theorem overridden_document_in_domain :
    ∃ document environment,
      parse "[read_store]\nlmdb_path = \"views\"\n" = .ok document ∧
      (document.override environment).Given ∧
      (document.override environment).validate = .ok () ∧
      (document.override environment).InDomain := by
  let document : Config := { standard with readStore := ⟨some "views", 1024⟩ }
  let environment : Environment := .ofList [("TESSERA_POLL_INTERVAL_MS", "20")]
  have read : parse "[read_store]\nlmdb_path = \"views\"\n" = .ok document :=
    Action.ok_of_toOption (by decide +kernel)
  have given : (document.override environment).Given := .overridden (.parsed read) environment
  have polled : (document.override environment).pipeline.pollInterval ≠ .zero := by decide +kernel
  have fits : (document.override environment).readStore.maxSizeMb < 2 ^ 44 := by decide +kernel
  exact ⟨document, environment, read, given, Action.ok_of_toOption (by decide +kernel),
    (in_domain_iff given).2.1.mpr ⟨polled, fun _ => fits⟩⟩

/-- A document that asks for a poll interval of zero passes validation and opens, and the pool that
starts takes nothing, whatever is queued. -/
theorem unpolled_document_is_accepted :
    ∃ document, parse "[pipeline]\npoll_interval_ms = 0\n" = .ok document ∧
      document.validate = .ok () ∧ ¬ document.InDomain ∧
      ∀ registry, Service.openEngine document registry =
          .ok (.ofConfig document registry, Service.start document) ∧
        ∀ span world, (WorkerPool.run (.ofConfig document registry) span).on world =
          (.ok world.metrics, { world with now := world.now.add span }) := by
  let document : Config :=
    { standard with pipeline := { PipelineConfig.standard with pollInterval := .zero } }
  have never : document.pipeline.pollInterval.isZero = true := rfl
  have accepted : document.validate = .ok () := Action.ok_of_toOption (by decide +kernel)
  refine ⟨document, Action.ok_of_toOption (by decide +kernel), accepted, fun domain => ?_,
    fun registry => ⟨?_, run_of_unpolled never⟩⟩
  · rw [domain.polls] at never
    cases never
  · exact openEngineOn_of_validate _ registry accepted rfl

end Config

end CachedViews
