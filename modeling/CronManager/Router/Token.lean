import CronManager.Boot

/-!
# Presenting the admin token

The admin token is the raw value of an environment variable (`resolve_admin_token`), the strength
check of the boot looks at the trimmed value (`CredCheck::is_weak`), and the gate compares the raw
value with the trimmed rest of the `Authorization` header (`bearer_token_bytes`).  So a token with
whitespace around it passes the boot and cannot be presented.

`adminGate_admits_iff` : the gate can be satisfied exactly by the tokens that are not padded.
-/

namespace CronManager

open Rust

/-- The characters a header value keeps as text: visible ASCII, spaces and tabs. -/
def isHeaderText (ch : Char) : Bool := (0x20 ≤ ch.toNat && ch.toNat < 0x7f) || ch == '\t'

/-- The value of `Authorization` that presents a token. -/
def bearerHeader (token : String) : String := "Bearer " ++ token

/-- The text begins or ends with whitespace. -/
def Padded (s : List Char) : Prop :=
  (∃ ch, s.head? = some ch ∧ isWhitespace ch = true) ∨
    ∃ ch, s.getLast? = some ch ∧ isWhitespace ch = true

theorem trim_eq_self_iff {s : List Char} : trim s = s ↔ ¬ Padded s := by
  rw [trim, trimMatches_eq_self_iff, Padded]
  simp only [not_or, not_exists, not_and, Bool.not_eq_true]

/-! ### The header -/

variable {s token : List Char}

theorem toNat_lt_of_isHeaderText {ch : Char} (h : isHeaderText ch = true) : ch.toNat < 0x80 := by
  simp only [isHeaderText, Bool.or_eq_true, Bool.and_eq_true, decide_eq_true_eq, beq_iff_eq] at h
  rcases h with hrange | rfl
  · omega
  · decide

theorem bytes_headerText (h : ∀ ch ∈ s, isHeaderText ch = true) :
    bytes s = s.map fun ch => ch.toNat.toUInt8 := by
  induction s with
  | nil => rfl
  | cons ch s ih =>
    have hch := h ch List.mem_cons_self
    have hsize : ch.utf8Size = 1 := by
      rw [Char.utf8Size_eq_one_iff, UInt32.le_iff_toNat_le]
      exact Nat.le_of_lt_succ (toNat_lt_of_isHeaderText hch)
    have hrest := ih fun ch' hch' => h ch' (List.mem_cons_of_mem ch hch')
    rw [bytes, List.flatMap_cons, String.utf8EncodeChar_eq_singleton hsize, List.map_cons, ← hrest]
    rfl

theorem toNat_headerByte {ch : Char} (h : isHeaderText ch = true) :
    ch.toNat.toUInt8.toNat = ch.toNat := by
  have hlt : ch.toNat < 0x80 := toNat_lt_of_isHeaderText h
  rw [Nat.toUInt8, UInt8.toNat_ofNat', Nat.mod_eq_of_lt (by omega)]

theorem headerToStr_bytes (h : ∀ ch ∈ s, isHeaderText ch = true) :
    headerToStr (bytes s) = some s := by
  have hbyte : ∀ ch ∈ s, ch.toNat.toUInt8.toNat = ch.toNat :=
    fun ch hch => toNat_headerByte (h ch hch)
  have hvisible : (bytes s).all (fun b => (32 ≤ b && b < 127) || b == 9) = true := by
    rw [bytes_headerText h, List.all_map, List.all_eq_true]
    intro ch hch
    have hok := h ch hch
    simp only [isHeaderText, Bool.or_eq_true, Bool.and_eq_true, decide_eq_true_eq,
      beq_iff_eq] at hok
    simp only [Function.comp_apply, Bool.or_eq_true, Bool.and_eq_true, decide_eq_true_eq,
      beq_iff_eq, UInt8.le_iff_toNat_le, UInt8.lt_iff_toNat_lt, hbyte ch hch]
    rcases hok with hrange | rfl
    · exact .inl hrange
    · exact .inr rfl
  rw [headerToStr, if_pos hvisible, bytes_headerText h, List.map_map]
  refine congrArg some ((List.map_congr_left fun ch hch => ?_).trans (List.map_id s))
  rw [Function.comp_apply, hbyte ch hch, Char.ofNat_toNat, id]

theorem trim_of_bearerTokenBytes {header : List Char}
    (h : bearerTokenBytes header = some (bytes token)) : trim token = token := by
  simp only [bearerTokenBytes] at h
  split_ifs at h
  -- whatever the header is, the bytes returned are those of a trimmed text
  rw [← bytes_injective (Option.some.inj h)]
  exact trimMatches_trimMatches isWhitespace _

theorem toList_bearerHeader (v : String) :
    (bearerHeader v).toList = 'B' :: 'e' :: 'a' :: 'r' :: 'e' :: 'r' :: ' ' :: v.toList := by
  simp [bearerHeader]

theorem bearerTokenBytes_bearerHeader {v : String} (hne : v.toList ≠ [])
    (htrim : trim v.toList = v.toList) :
    bearerTokenBytes (bearerHeader v).toList = some (bytes v.toList) := by
  have hheader : trim (bearerHeader v).toList = (bearerHeader v).toList := by
    rw [trim_eq_self_iff, toList_bearerHeader]
    rintro (⟨ch, hhead, hws⟩ | ⟨ch, hlast, hws⟩)
    · obtain rfl := Option.some.inj hhead
      exact absurd hws (by decide)
    · have hv : v.toList.getLast? = some ch := by
        rw [← hlast]
        exact (List.getLast?_append_of_ne_nil ['B', 'e', 'a', 'r', 'e', 'r', ' '] hne).symm
      exact trim_eq_self_iff.1 htrim (.inr ⟨ch, hv, hws⟩)
  have hscheme : (bearerHeader v).toList.takeWhile (fun ch => !isWhitespace ch) =
      "Bearer".toList := by
    simp [toList_bearerHeader, isWhitespace]
  have hrest : (bearerHeader v).toList.dropWhile (fun ch => !isWhitespace ch) =
      ' ' :: v.toList := by
    simp [toList_bearerHeader, isWhitespace]
  have htoken : trim (' ' :: v.toList) = v.toList := by
    rw [trim, trimMatches_cons (by decide)]
    exact htrim
  have hlen : "Bearer".toList.length ≠ (bearerHeader v).toList.length := by
    simp [toList_bearerHeader]
  simp only [bearerTokenBytes, hheader, hscheme, hrest, htoken, if_neg hlen]
  simp [hne, eqIgnoreAsciiCase]

/-! ### The gate -/

variable {cfg : AppConfig} {env : ProcEnv} {v : String}

theorem appState_adminToken (hv : cfg.resolveAdminToken env = some v) :
    (cfg.appState env).adminToken = some v := by
  unfold AppConfig.appState
  rw [hv]
  simp only
  split
  · rfl
  · rfl

/-- **The gate can be satisfied exactly by the tokens that are not padded.**  For every admin token
of visible ASCII, spaces and tabs: `Authorization: Bearer v` carries the bytes that the gate
compares with and is admitted on every path, if and only if the token neither begins nor ends with
whitespace. -/
theorem adminGate_admits_iff (hv : cfg.resolveAdminToken env = some v)
    (htext : ∀ ch ∈ v.toList, isHeaderText ch = true) :
    (bearerTokenBytes (bearerHeader v).toList = some (bytes v.toList) ∧
        ∀ path, (cfg.appState env).adminGate path (some (bytes (bearerHeader v).toList)) =
          .ok ()) ↔
      ¬ Padded v.toList := by
  rw [← trim_eq_self_iff]
  constructor
  · rintro ⟨hbearer, -⟩
    exact trim_of_bearerTokenBytes hbearer
  · intro htrim
    have hne : v.toList ≠ [] := by
      have hfilter := (Option.filter_eq_some_iff.1 hv).2
      simpa using hfilter
    have hbearer := bearerTokenBytes_bearerHeader hne htrim
    have hstr : headerToStr (bytes (bearerHeader v).toList) = some (bearerHeader v).toList := by
      apply headerToStr_bytes
      rw [toList_bearerHeader]
      simpa [isHeaderText] using htext
    refine ⟨hbearer, fun path => (adminGate_eq_ok (appState_adminToken hv)).2 ?_⟩
    refine ⟨bytes v.toList, ?_, .inl rfl⟩
    rw [presentedToken, Option.bind_some, hstr, Option.bind_some, hbearer]

theorem adminGate_admits_demo :
    (AppConfig.default.appState demoEnv).adminGate "/reload/nightly"
      (some (bytes (bearerHeader "7f3b9c1e5a8d4e6fb2a0c4d8e1f37a95").toList)) = .ok () := by
  refine ((adminGate_admits_iff (v := "7f3b9c1e5a8d4e6fb2a0c4d8e1f37a95") rfl ?_).2 ?_).2 _
  · exact List.all_eq_true.1 (by decide +kernel)
  · rw [← trim_eq_self_iff]
    decide +kernel

/-- The same token with a trailing space. -/
def paddedEnv : ProcEnv := fun var =>
  if var = "CRONMANAGER_ADMIN_TOKEN" then some "7f3b9c1e5a8d4e6fb2a0c4d8e1f37a95 " else none

/-- The padded token passes the boot gates, and the header that presents it is refused. -/
theorem adminGate_refuses_padded :
    AppConfig.default.resolveAdminToken paddedEnv = some "7f3b9c1e5a8d4e6fb2a0c4d8e1f37a95 " ∧
      "7f3b9c1e5a8d4e6fb2a0c4d8e1f37a95 ".toList.all isHeaderText = true ∧
      AppConfig.default.bootGates paddedEnv = .ok () ∧
      presentedToken (some (bytes (bearerHeader "7f3b9c1e5a8d4e6fb2a0c4d8e1f37a95 ").toList)) =
        some (bytes "7f3b9c1e5a8d4e6fb2a0c4d8e1f37a95".toList) ∧
      (AppConfig.default.appState paddedEnv).adminGate "/reload/nightly"
          (some (bytes (bearerHeader "7f3b9c1e5a8d4e6fb2a0c4d8e1f37a95 ").toList)) =
        .error .unauthorized := by
  refine ⟨rfl, by decide +kernel, by decide +kernel, by decide +kernel, by decide +kernel⟩

end CronManager
