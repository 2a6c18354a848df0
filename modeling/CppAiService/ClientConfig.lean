import CppAiService.AiClient
import CppAiService.Strtol

namespace CppAiService

open Bytes Strtol

namespace KHashLfuCache

open Foundation.Rounding

/-- The sizes that negative capacities become have their last eleven bits rounded off. -/
theorem sliceSize_of_large {n : ℕ} (h : 2 ^ 64 - 2 ^ 31 ≤ n) (h' : n < 2 ^ 64) :
    ∃ r ≤ 2 ^ 29, sliceSize n 4 = 2 ^ 62 - r := by
  have hlog : n.log2 = 63 := (Nat.log2_eq_iff (by omega)).2 ⟨by omega, h'⟩
  have hulp : ulp 53 (n / 1) = 2 ^ 11 := by rw [Nat.div_one, ulp, hlog]
  obtain ⟨q, hq⟩ : ∃ q, q = nearestEven n (2 ^ 11) := ⟨_, rfl⟩
  have hdouble : doubleOfSizeT n = q * 2 ^ 11 := by
    rw [doubleOfSizeT, significant, hulp, Nat.one_mul, hq]
  have hlow : 2 ^ 53 - 2 ^ 20 ≤ q := by
    rw [hq]
    exact le_trans (by omega) (div_le_nearestEven n (2 ^ 11))
  have hhigh : q ≤ 2 ^ 53 := by
    rw [hq]
    exact nearestEven_le (by decide) (by omega)
  have hquarter : sliceSize n 4 = (q * 2 ^ 11 + 2 ^ 2 - 1) / 2 ^ 2 := by
    have hfour : 4 = 2 ^ 2 := rfl
    rw [sliceSize, hdouble, hfour]
    exact ceilQuotient_two_pow_of_le (by decide) (by omega) hhigh
  exact ⟨2 ^ 62 - q * 2 ^ 9, by omega, by omega⟩

theorem one_le_slice_iff {capacity : ℤ} (hlow : -2 ^ 31 ≤ capacity) (hhigh : capacity < 2 ^ 31) :
    1 ≤ intOfSizeT (sliceSize (sizeTOfInt capacity) 4) ↔ 1 ≤ capacity := by
  rcases le_or_gt 0 capacity with hpos | hneg
  · have hint := sizeTOfInt_of_nonneg hpos hhigh
    rw [sliceSize_eq (by omega) (by decide), ceilSlice, intOfSizeT,
      wrap32_eq_self (by omega) (by omega)]
    omega
  · have hsize : sizeTOfInt capacity = (2 ^ 64 + capacity).toNat := by
      rw [sizeTOfInt]
      omega
    obtain ⟨r, hr, hslice⟩ := sliceSize_of_large (n := sizeTOfInt capacity)
      (by omega) (by omega)
    have hle : intOfSizeT (2 ^ 62 - r) ≤ 0 := by
      rw [intOfSizeT, wrap32, Int.bmod_def]
      split_ifs <;> omega
    rw [hslice]
    omega

end KHashLfuCache

namespace AiClientConfig

def kOpenAiProvider : Bytes := lit "openai"
def kOpenAiCompatibleProvider : Bytes := lit "openai_compatible"
def kDeepSeekProvider : Bytes := lit "deepseek"
def kOpenRouterProvider : Bytes := lit "openrouter"
def kGroqProvider : Bytes := lit "groq"
def kOllamaProvider : Bytes := lit "ollama"
def kChatAnywhereProvider : Bytes := lit "chatanywhere"

section

variable (getenv : Bytes → Option Bytes)

def envOrDefault (name fallback : Bytes) : Bytes :=
  match getenv name with
  | none | some [] => fallback
  | some value => value

/-- A name that is `nullptr` is passed over. -/
def firstEnvValue (first second third : Option Bytes) (fallback : Bytes) : Bytes :=
  let value (name : Option Bytes) : Option Bytes := (name.bind getenv).filter (· ≠ [])
  ([first, second, third].findSome? value).getD fallback

def defaultBaseUrl (provider : Bytes) : Bytes :=
  if provider = kDeepSeekProvider then lit "https://api.deepseek.com/v1"
  else if provider = kOpenRouterProvider then lit "https://openrouter.ai/api/v1"
  else if provider = kGroqProvider then lit "https://api.groq.com/openai/v1"
  else if provider = kOllamaProvider then lit "http://127.0.0.1:11434/v1"
  else if provider = kChatAnywhereProvider then lit "https://api.chatanywhere.tech/v1"
  else lit "https://api.openai.com/v1"

def defaultModel (provider : Bytes) : Bytes :=
  if provider = kDeepSeekProvider then lit "deepseek-chat"
  else if provider = kOpenRouterProvider then lit "openrouter/free"
  else if provider = kGroqProvider then lit "llama-3.1-8b-instant"
  else if provider = kOllamaProvider then lit "llama3.2"
  else if provider = kChatAnywhereProvider then lit "gpt-3.5-turbo"
  else if provider = kOpenAiProvider ∨ provider = kOpenAiCompatibleProvider then lit "gpt-4.1-mini"
  else lit "stub-local"

/-- The sign is looked at before the `long` becomes an `int`. -/
def positiveEnvOrDefault (name : Bytes) (fallback : ℤ) : ℤ :=
  match getenv name with
  | none | some [] => fallback
  | some value =>
    let (parsed, read) := strtol value
    if read = 0 ∨ parsed ≤ 0 then fallback else wrap32 parsed

def fromEnvironment : AiClientConfig :=
  let provider := envOrDefault getenv (lit "CPP_AI_PROVIDER") (lit "stub")
  let apiKey := firstEnvValue getenv (lit "CPP_AI_API_KEY") (lit "OPENAI_API_KEY")
    (if provider = kDeepSeekProvider then lit "DEEPSEEK_API_KEY"
    else if provider = kOpenRouterProvider then lit "OPENROUTER_API_KEY"
    else if provider = kGroqProvider then lit "GROQ_API_KEY"
    else if provider = kChatAnywhereProvider then lit "CHATANYWHERE_API_KEY"
    else none) []
  { provider := provider
    model := envOrDefault getenv (lit "CPP_AI_MODEL") (defaultModel provider)
    baseUrl := envOrDefault getenv (lit "CPP_AI_BASE_URL") (defaultBaseUrl provider)
    apiKey := apiKey
    apiKeyConfigured := apiKey ≠ []
    cacheCapacity := positiveEnvOrDefault getenv (lit "CPP_AI_CACHE_CAPACITY") 64
    requestTimeoutSeconds := positiveEnvOrDefault getenv (lit "CPP_AI_TIMEOUT_SECONDS") 20 }

end

/-- A positive number that the text begins with is a `long` whose lower half is a positive `int`. -/
def Fits (value : Option Bytes) : Prop :=
  ∀ N : Numeral, value = some N.text → 0 < N.value →
    N.value < 2 ^ 63 ∧ 1 ≤ N.value % 2 ^ 32 ∧ N.value % 2 ^ 32 < 2 ^ 31

theorem one_le_wrap32_iff (n : ℤ) : 1 ≤ wrap32 n ↔ 1 ≤ n % 2 ^ 32 ∧ n % 2 ^ 32 < 2 ^ 31 := by
  have hpos := Int.emod_nonneg n (show (2 : ℤ) ^ 32 ≠ 0 by decide)
  rw [wrap32, Int.bmod_def]
  split_ifs <;> omega

theorem one_le_wrap32_clamp_iff {n : ℤ} (h : 0 < n) :
    1 ≤ wrap32 (clamp n) ↔ n < 2 ^ 63 ∧ 1 ≤ n % 2 ^ 32 ∧ n % 2 ^ 32 < 2 ^ 31 := by
  rw [one_le_wrap32_iff, clamp]
  rcases lt_or_ge n (2 ^ 63) with hlt | hge
  · rw [min_eq_left (by omega), max_eq_right (by omega)]
    exact (and_iff_right hlt).symm
  · rw [min_eq_right (by omega), max_eq_right (by omega)]
    omega

theorem fits_of_eq {value : Bytes} (h : (strtol value).2 = 0 ∨ (strtol value).1 ≤ 0) :
    Fits (some value) := by
  intro N hN hpos
  have hread := strtol_text N
  rw [← Option.some.inj hN] at hread
  rw [hread] at h
  rcases h with hzero | hle
  · exact absurd (List.length_eq_zero_iff.1 (Nat.eq_zero_of_add_eq_zero_left hzero)) N.some
  · simp only [clamp] at hle
    omega

theorem fits_text_iff {N : Numeral} (h : 0 < N.value) :
    Fits (some N.text) ↔ 1 ≤ wrap32 (clamp N.value) := by
  rw [one_le_wrap32_clamp_iff h]
  refine ⟨fun hfits ↦ hfits N rfl h, fun hN M hM hpos ↦ ?_⟩
  have hsame : clamp N.value = clamp M.value := by
    have hread := strtol_text N
    rw [Option.some.inj hM, strtol_text M] at hread
    exact (congrArg Prod.fst hread).symm
  rw [← one_le_wrap32_clamp_iff h, hsame] at hN
  exact (one_le_wrap32_clamp_iff hpos).1 hN

theorem one_le_positiveEnvOrDefault_iff (getenv : Bytes → Option Bytes) (name : Bytes)
    {fallback : ℤ} (h : 1 ≤ fallback) :
    1 ≤ positiveEnvOrDefault getenv name fallback ↔ Fits (getenv name) := by
  rw [positiveEnvOrDefault]
  cases getenv name with
  | none => exact iff_of_true h fun _ hN ↦ by cases hN
  | some value =>
    cases value with
    | nil => exact iff_of_true h (fits_of_eq (Or.inl rfl))
    | cons ch rest =>
      simp only
      split_ifs with hstop
      · exact iff_of_true h (fits_of_eq hstop)
      · obtain ⟨hread, hpos⟩ := not_or.1 hstop
        obtain ⟨N, hN⟩ := exists_numeral hread
        rw [← hN, strtol_text] at hpos ⊢
        have hvalue : 0 < N.value := by
          simp only [clamp] at hpos
          omega
        exact (fits_text_iff hvalue).symm

theorem positiveEnvOrDefault_bounds (getenv : Bytes → Option Bytes) (name : Bytes) {fallback : ℤ}
    (hlow : -2 ^ 31 ≤ fallback) (hhigh : fallback < 2 ^ 31) :
    -2 ^ 31 ≤ positiveEnvOrDefault getenv name fallback ∧
      positiveEnvOrDefault getenv name fallback < 2 ^ 31 := by
  have hwrap (n : ℤ) : -2 ^ 31 ≤ wrap32 n ∧ wrap32 n < 2 ^ 31 := by
    rw [wrap32, Int.bmod_def]
    split_ifs <;> omega
  rw [positiveEnvOrDefault]
  split
  · exact ⟨hlow, hhigh⟩
  · exact ⟨hlow, hhigh⟩
  · simp only
    split_ifs
    · exact ⟨hlow, hhigh⟩
    · exact hwrap _

theorem slices_positive_iff (tools : Option ToolRegistry) {config : AiClientConfig}
    (hlow : -2 ^ 31 ≤ config.cacheCapacity) (hhigh : config.cacheCapacity < 2 ^ 31) :
    (∀ slice ∈ (AiClient.create tools config).responseCache_.lfuSliceCaches_,
      1 ≤ slice.capacity_) ↔ 1 ≤ config.cacheCapacity := by
  have hslices : (AiClient.create tools config).responseCache_.lfuSliceCaches_ =
      List.replicate 4 (KLfuCache.create (intOfSizeT
        (KHashLfuCache.sliceSize (sizeTOfInt config.cacheCapacity) 4)) 10) := rfl
  rw [hslices, List.forall_mem_replicate, ← KHashLfuCache.one_le_slice_iff hlow hhigh,
    KLfuCache.create, or_iff_right (by decide)]

/-- Which environments leave every number of the configuration positive. -/
theorem fromEnvironment_positive_iff (getenv : Bytes → Option Bytes) :
    (∀ name fallback, 1 ≤ fallback →
      (1 ≤ positiveEnvOrDefault getenv name fallback ↔ Fits (getenv name))) ∧
    (1 ≤ (fromEnvironment getenv).cacheCapacity ↔
      Fits (getenv (lit "CPP_AI_CACHE_CAPACITY"))) ∧
    (1 ≤ (fromEnvironment getenv).requestTimeoutSeconds ↔
      Fits (getenv (lit "CPP_AI_TIMEOUT_SECONDS"))) ∧
    ∀ tools,
      (∀ slice ∈
          (AiClient.create tools (fromEnvironment getenv)).responseCache_.lfuSliceCaches_,
        1 ≤ slice.capacity_) ↔ Fits (getenv (lit "CPP_AI_CACHE_CAPACITY")) := by
  have hcapacity := one_le_positiveEnvOrDefault_iff getenv (lit "CPP_AI_CACHE_CAPACITY")
    (show (1 : ℤ) ≤ 64 by decide)
  obtain ⟨hlow, hhigh⟩ := positiveEnvOrDefault_bounds getenv (lit "CPP_AI_CACHE_CAPACITY")
    (show (-2 ^ 31 : ℤ) ≤ 64 by decide) (show (64 : ℤ) < 2 ^ 31 by decide)
  refine ⟨fun name fallback h ↦ one_le_positiveEnvOrDefault_iff getenv name h, hcapacity,
    one_le_positiveEnvOrDefault_iff getenv _ (by decide), fun tools ↦ ?_⟩
  exact (slices_positive_iff tools hlow hhigh).trans hcapacity

theorem padded_settings_positive :
    let getenv (name : Bytes) : Option Bytes :=
      if name = lit "CPP_AI_CACHE_CAPACITY" then lit " +128 entries"
      else if name = lit "CPP_AI_TIMEOUT_SECONDS" then lit "-3"
      else none
    1 ≤ positiveEnvOrDefault getenv (lit "CPP_AI_CACHE_CAPACITY") 64 ∧
      1 ≤ (fromEnvironment getenv).cacheCapacity ∧
      1 ≤ (fromEnvironment getenv).requestTimeoutSeconds ∧
      ∀ slice ∈ (AiClient.create none (fromEnvironment getenv)).responseCache_.lfuSliceCaches_,
        1 ≤ slice.capacity_ := by
  intro getenv
  obtain ⟨hname, hcapacity, htimeout, hslices⟩ := fromEnvironment_positive_iff getenv
  have hplus : Fits (getenv (lit "CPP_AI_CACHE_CAPACITY")) := by
    have hvalue : getenv (lit "CPP_AI_CACHE_CAPACITY") = some
        (Numeral.text ⟨lit " ", .plus, lit "128", lit " entries", by decide +kernel,
          by decide +kernel, by decide +kernel, by decide +kernel⟩) := by decide +kernel
    rw [hvalue, fits_text_iff (by decide)]
    decide
  have hminus : Fits (getenv (lit "CPP_AI_TIMEOUT_SECONDS")) :=
    fits_of_eq (Or.inr (by decide))
  exact ⟨(hname _ 64 (by decide)).2 hplus, hcapacity.2 hplus, htimeout.2 hminus,
    (hslices none).2 hplus⟩

/-- A setting of `2 ^ 32` becomes zero, one of `2 ^ 31` the least `int`. -/
theorem settings_narrowed_away :
    let getenv (value name : Bytes) : Option Bytes :=
      if name = lit "CPP_AI_CACHE_CAPACITY" ∨ name = lit "CPP_AI_TIMEOUT_SECONDS" then value
      else none
    let zero := fromEnvironment (getenv (lit "4294967296"))
    let least := fromEnvironment (getenv (lit "2147483648"))
    zero.cacheCapacity = 0 ∧ zero.requestTimeoutSeconds = 0 ∧
      (AiClient.create none zero).responseCache_.lfuSliceCaches_.map KLfuCache.capacity_ =
        [0, 0, 0, 0] ∧
      least.cacheCapacity = -2147483648 ∧ least.requestTimeoutSeconds = -2147483648 ∧
      (AiClient.create none least).responseCache_.lfuSliceCaches_.map KLfuCache.capacity_ =
        [-536870912, -536870912, -536870912, -536870912] ∧
      (fromEnvironment (getenv (lit "99999999999999999999"))).requestTimeoutSeconds = -1 := by
  decide

end AiClientConfig

end CppAiService
