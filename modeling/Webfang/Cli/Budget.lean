import Mathlib.Algebra.Group.Nat.Defs
import Mathlib.Data.List.DropRight
import Webfang.Domain.Record
import Webfang.Lib.Numerals

/-!
# Concurrency budgets

The budget model of `domain/budget`: what the operator overrides and what follows from the cores of
the machine, with `ConcurrencyConfig` of `domain/config.rs`.  The ceiling on Chrome instances, which
is derived from the memory in floating point, is left out.
-/

namespace Webfang.Cli

/-- `NonZeroUsize` and `NonZeroU32`, of which the tiers of `tiers.rs` are made. -/
structure NonZero where
  get : Nat
  pos : 0 < get
  deriving DecidableEq

/-- The constructors of the tiers, whose only error is that for 0. -/
def NonZero.new (value : Nat) : Option NonZero :=
  if pos : 0 < value then some ⟨value, pos⟩ else none

theorem NonZero.new_eq_some {value : Nat} (pos : 0 < value) :
    NonZero.new value = some ⟨value, pos⟩ := dif_pos pos

def NonZero.one : NonZero := ⟨1, by omega⟩

def maxConcurrencyCeiling : Nat := 16

/-- `clamp_budget`; the floor stands where the ceiling is below it. -/
def clampBudget (value : Nat) (floor : NonZero) (ceiling : Nat) : NonZero :=
  let floored := max value floor.get
  let capped := min floored (max ceiling floor.get)
  (NonZero.new capped).getD floor

/-! ## The setting of the concurrency -/

/-- `ConcurrencyConfig`: the fields are private, and an explicit value has been clamped. -/
structure ConcurrencyConfig where
  value : Option Nat
  autoDetect : Bool
  clamped : ∀ v ∈ value, 1 ≤ v ∧ v ≤ maxConcurrencyCeiling

theorem get_clampBudget (value : Nat) :
    1 ≤ (clampBudget value .one maxConcurrencyCeiling).get ∧
      (clampBudget value .one maxConcurrencyCeiling).get ≤ maxConcurrencyCeiling := by
  have fits : 0 < min (max value 1) (max maxConcurrencyCeiling 1) := by
    rw [maxConcurrencyCeiling]
    omega
  have capped : (clampBudget value .one maxConcurrencyCeiling).get =
      min (max value 1) (max maxConcurrencyCeiling 1) := by
    dsimp only [clampBudget, NonZero.one]
    rw [NonZero.new_eq_some fits, Option.getD_some]
  rw [capped, maxConcurrencyCeiling]
  omega

namespace ConcurrencyConfig

/-- `default` and `auto`. -/
def auto : ConcurrencyConfig := ⟨none, true, by simp⟩

def new (value : Nat) : ConcurrencyConfig :=
  ⟨some (clampBudget value .one maxConcurrencyCeiling).get, false, by
    intro v explicit
    rw [← Option.some.inj explicit]
    exact get_clampBudget value⟩

def get (config : ConcurrencyConfig) : Option Nat := config.value

/-- On a machine with these cores. -/
def resolve (config : ConcurrencyConfig) (cores : NonZero) : Nat :=
  match config.value with
  | some value => value
  | none =>
      let optimal :=
        match cores.get with
        | 1 | 2 => 1
        | 3 | 4 => 3
        | 5 | 6 | 7 => 5
        | n => min (n - 1) 8
      (clampBudget optimal .one maxConcurrencyCeiling).get

end ConcurrencyConfig

/-! ## Numbers -/

/-- `str::trim`. -/
def trim (text : List Char) : List Char :=
  (text.dropWhile isWhitespace).rdropWhile isWhitespace

/-- `str::parse` of an unsigned integer of so many bits. -/
def parseUnsigned (bits : Nat) (text : List Char) : Option Nat :=
  let digits := if text.head? = some '+' then text.tail else text
  if digits.isEmpty || !digits.all (Numerals.isDigit 10) then none
  else
    let number := Numerals.numeral 10 0 digits
    if number < 2 ^ bits then some number else none

/-- `ConcurrencyConfig::from(&str)`; what is no number is a warning. -/
def ConcurrencyConfig.ofStr (text : List Char) : ConcurrencyConfig :=
  let text := (trim text).map Char.toLower
  if text = "auto".toList || text.isEmpty then .auto
  else ((parseUnsigned 64 text).map .new).getD .auto

/-! ## The model -/

/-- What the operator has set. -/
structure BudgetOverrides where
  rateBurst : Option NonZero
  crawl : Option NonZero
  batch : Option NonZero
  asset : Option NonZero
  deriving DecidableEq

def BudgetOverrides.unset : BudgetOverrides := ⟨none, none, none, none⟩

/-- `auto_crawl_table`. -/
def autoCrawlTable (cores : NonZero) : Nat :=
  let optimal :=
    match cores.get with
    | 1 | 2 => 1
    | 3 | 4 => 3
    | 5 | 6 | 7 => 5
    | n => min (n - 1) 8
  (clampBudget optimal .one maxConcurrencyCeiling).get

def deriveAutoCrawl (cores : NonZero) : NonZero :=
  ⟨autoCrawlTable cores, (get_clampBudget _).1⟩

def deriveCrawl (explicit : Option NonZero) (cores : NonZero) : NonZero :=
  explicit.getD (deriveAutoCrawl cores)

def deriveBurst (explicit : Option NonZero) (cores : NonZero) : NonZero :=
  explicit.getD (deriveAutoCrawl cores)

/-- The tiers of `BudgetModel`. -/
structure BudgetModel where
  globalConcurrency : NonZero
  domain : NonZero
  crawl : NonZero
  batch : NonZero
  inference : NonZero
  elastic : NonZero
  asset : NonZero
  burst : NonZero
  deriving DecidableEq

def domainSlotsDefault : Nat := 8

def BudgetModel.build (overrides : BudgetOverrides) (cores : NonZero) : BudgetModel where
  globalConcurrency := ⟨maxConcurrencyCeiling, by decide⟩
  domain := ⟨domainSlotsDefault, by decide⟩
  crawl := deriveCrawl overrides.crawl cores
  batch := overrides.batch.getD ⟨5, by omega⟩
  inference := ⟨4, by omega⟩
  elastic := ⟨max cores.get 4, by omega⟩
  asset := overrides.asset.getD ⟨3, by omega⟩
  burst := deriveBurst overrides.rateBurst cores

/-- `Container::scrape_concurrency`. -/
def scrapeConcurrency (overrides : BudgetOverrides) (cores : NonZero) : Nat :=
  (BudgetModel.build overrides cores).crawl.get

/-- The crawl tier is the concurrency that the setting asks for, where the override is its explicit
value. -/
theorem scrapeConcurrency_eq_resolve {overrides : BudgetOverrides} {config : ConcurrencyConfig}
    (explicit : overrides.crawl.map NonZero.get = config.get) (cores : NonZero) :
    scrapeConcurrency overrides cores = config.resolve cores := by
  rw [scrapeConcurrency, BudgetModel.build, deriveCrawl, ConcurrencyConfig.resolve]
  rw [ConcurrencyConfig.get] at explicit
  cases set : overrides.crawl with
  | none =>
      rw [set, Option.map_none] at explicit
      rw [← explicit]
      rfl
  | some crawl =>
      rw [set, Option.map_some] at explicit
      rw [← explicit]
      rfl

end Webfang.Cli
