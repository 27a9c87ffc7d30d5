import Spazito.EcmaText

set_option autoImplicit false

/-!
# Case mapping

The locale-independent mappings of Unicode: one code point may map to several, so a string may
change its length. Below 128 the mapping is the one of ASCII.
-/
namespace Ecma

/-- The code points `lo, lo + stride, ..., hi`, each mapped to itself plus `delta`. -/
structure CaseRun where
  lo : ℕ
  hi : ℕ
  stride : ℕ
  delta : ℤ

def CaseRun.covers (r : CaseRun) (p : ℕ) : Bool :=
  r.lo ≤ p && p ≤ r.hi && (p - r.lo) % r.stride == 0

def shiftCase (runs : List CaseRun) (p : ℕ) : ℕ :=
  match runs.find? (·.covers p) with
  | some r => ((p : ℤ) + r.delta).toNat
  | none => p

def upperRuns : List CaseRun := [
  ⟨181,181,1,743⟩, ⟨224,246,1,-32⟩, ⟨248,254,1,-32⟩, ⟨255,255,1,121⟩, ⟨257,303,2,-1⟩,
  ⟨305,305,1,-232⟩, ⟨307,311,2,-1⟩, ⟨314,328,2,-1⟩, ⟨331,375,2,-1⟩, ⟨378,382,2,-1⟩,
  ⟨383,383,1,-300⟩, ⟨384,384,1,195⟩, ⟨387,389,2,-1⟩, ⟨392,392,1,-1⟩, ⟨396,396,1,-1⟩,
  ⟨402,402,1,-1⟩, ⟨405,405,1,97⟩, ⟨409,409,1,-1⟩, ⟨410,410,1,163⟩, ⟨414,414,1,130⟩,
  ⟨417,421,2,-1⟩, ⟨424,424,1,-1⟩, ⟨429,429,1,-1⟩, ⟨432,432,1,-1⟩, ⟨436,438,2,-1⟩, ⟨441,441,1,-1⟩,
  ⟨445,445,1,-1⟩, ⟨447,447,1,56⟩, ⟨453,453,1,-1⟩, ⟨454,454,1,-2⟩, ⟨456,456,1,-1⟩, ⟨457,457,1,-2⟩,
  ⟨459,459,1,-1⟩, ⟨460,460,1,-2⟩, ⟨462,476,2,-1⟩, ⟨477,477,1,-79⟩, ⟨479,495,2,-1⟩,
  ⟨498,498,1,-1⟩, ⟨499,499,1,-2⟩, ⟨501,501,1,-1⟩, ⟨505,543,2,-1⟩, ⟨547,563,2,-1⟩, ⟨572,572,1,-1⟩,
  ⟨575,576,1,10815⟩, ⟨578,578,1,-1⟩, ⟨583,591,2,-1⟩, ⟨592,592,1,10783⟩, ⟨593,593,1,10780⟩,
  ⟨594,594,1,10782⟩, ⟨595,595,1,-210⟩, ⟨596,596,1,-206⟩, ⟨598,599,1,-205⟩, ⟨601,601,1,-202⟩,
  ⟨603,603,1,-203⟩, ⟨604,604,1,42319⟩, ⟨608,608,1,-205⟩, ⟨609,609,1,42315⟩, ⟨611,611,1,-207⟩,
  ⟨613,613,1,42280⟩, ⟨614,614,1,42308⟩, ⟨616,616,1,-209⟩, ⟨617,617,1,-211⟩, ⟨618,618,1,42308⟩,
  ⟨619,619,1,10743⟩, ⟨620,620,1,42305⟩, ⟨623,623,1,-211⟩, ⟨625,625,1,10749⟩, ⟨626,626,1,-213⟩,
  ⟨629,629,1,-214⟩, ⟨637,637,1,10727⟩, ⟨640,640,1,-218⟩, ⟨642,642,1,42307⟩, ⟨643,643,1,-218⟩,
  ⟨647,647,1,42282⟩, ⟨648,648,1,-218⟩, ⟨649,649,1,-69⟩, ⟨650,651,1,-217⟩, ⟨652,652,1,-71⟩,
  ⟨658,658,1,-219⟩, ⟨669,669,1,42261⟩, ⟨670,670,1,42258⟩, ⟨837,837,1,84⟩, ⟨881,883,2,-1⟩,
  ⟨887,887,1,-1⟩, ⟨891,893,1,130⟩, ⟨940,940,1,-38⟩, ⟨941,943,1,-37⟩, ⟨945,961,1,-32⟩,
  ⟨962,962,1,-31⟩, ⟨963,971,1,-32⟩, ⟨972,972,1,-64⟩, ⟨973,974,1,-63⟩, ⟨976,976,1,-62⟩,
  ⟨977,977,1,-57⟩, ⟨981,981,1,-47⟩, ⟨982,982,1,-54⟩, ⟨983,983,1,-8⟩, ⟨985,1007,2,-1⟩,
  ⟨1008,1008,1,-86⟩, ⟨1009,1009,1,-80⟩, ⟨1010,1010,1,7⟩, ⟨1011,1011,1,-116⟩, ⟨1013,1013,1,-96⟩,
  ⟨1016,1016,1,-1⟩, ⟨1019,1019,1,-1⟩, ⟨1072,1103,1,-32⟩, ⟨1104,1119,1,-80⟩, ⟨1121,1153,2,-1⟩,
  ⟨1163,1215,2,-1⟩, ⟨1218,1230,2,-1⟩, ⟨1231,1231,1,-15⟩, ⟨1233,1327,2,-1⟩, ⟨1377,1414,1,-48⟩,
  ⟨4304,4346,1,3008⟩, ⟨4349,4351,1,3008⟩, ⟨5112,5117,1,-8⟩, ⟨7296,7296,1,-6254⟩,
  ⟨7297,7297,1,-6253⟩, ⟨7298,7298,1,-6244⟩, ⟨7299,7300,1,-6242⟩, ⟨7301,7301,1,-6243⟩,
  ⟨7302,7302,1,-6236⟩, ⟨7303,7303,1,-6181⟩, ⟨7304,7304,1,35266⟩, ⟨7545,7545,1,35332⟩,
  ⟨7549,7549,1,3814⟩, ⟨7566,7566,1,35384⟩, ⟨7681,7829,2,-1⟩, ⟨7835,7835,1,-59⟩, ⟨7841,7935,2,-1⟩,
  ⟨7936,7943,1,8⟩, ⟨7952,7957,1,8⟩, ⟨7968,7975,1,8⟩, ⟨7984,7991,1,8⟩, ⟨8000,8005,1,8⟩,
  ⟨8017,8023,2,8⟩, ⟨8032,8039,1,8⟩, ⟨8048,8049,1,74⟩, ⟨8050,8053,1,86⟩, ⟨8054,8055,1,100⟩,
  ⟨8056,8057,1,128⟩, ⟨8058,8059,1,112⟩, ⟨8060,8061,1,126⟩, ⟨8112,8113,1,8⟩, ⟨8126,8126,1,-7205⟩,
  ⟨8144,8145,1,8⟩, ⟨8160,8161,1,8⟩, ⟨8165,8165,1,7⟩, ⟨8526,8526,1,-28⟩, ⟨8560,8575,1,-16⟩,
  ⟨8580,8580,1,-1⟩, ⟨9424,9449,1,-26⟩, ⟨11312,11359,1,-48⟩, ⟨11361,11361,1,-1⟩,
  ⟨11365,11365,1,-10795⟩, ⟨11366,11366,1,-10792⟩, ⟨11368,11372,2,-1⟩, ⟨11379,11379,1,-1⟩,
  ⟨11382,11382,1,-1⟩, ⟨11393,11491,2,-1⟩, ⟨11500,11502,2,-1⟩, ⟨11507,11507,1,-1⟩,
  ⟨11520,11557,1,-7264⟩, ⟨11559,11559,1,-7264⟩, ⟨11565,11565,1,-7264⟩, ⟨42561,42605,2,-1⟩,
  ⟨42625,42651,2,-1⟩, ⟨42787,42799,2,-1⟩, ⟨42803,42863,2,-1⟩, ⟨42874,42876,2,-1⟩,
  ⟨42879,42887,2,-1⟩, ⟨42892,42892,1,-1⟩, ⟨42897,42899,2,-1⟩, ⟨42900,42900,1,48⟩,
  ⟨42903,42921,2,-1⟩, ⟨42933,42947,2,-1⟩, ⟨42952,42954,2,-1⟩, ⟨42961,42961,1,-1⟩,
  ⟨42967,42969,2,-1⟩, ⟨42998,42998,1,-1⟩, ⟨43859,43859,1,-928⟩, ⟨43888,43967,1,-38864⟩,
  ⟨65345,65370,1,-32⟩, ⟨66600,66639,1,-40⟩, ⟨66776,66811,1,-40⟩, ⟨66967,66977,1,-39⟩,
  ⟨66979,66993,1,-39⟩, ⟨66995,67001,1,-39⟩, ⟨67003,67004,1,-39⟩, ⟨68800,68850,1,-64⟩,
  ⟨71872,71903,1,-32⟩, ⟨93792,93823,1,-32⟩, ⟨125218,125251,1,-34⟩]

/-- The code points whose upper case is more than one code point. -/
def specialUpper : List (ℕ × List ℕ) := [
  (223,[83,83]), (329,[700,78]), (496,[74,780]), (912,[921,776,769]), (944,[933,776,769]),
  (1415,[1333,1362]), (7830,[72,817]), (7831,[84,776]), (7832,[87,778]), (7833,[89,778]),
  (7834,[65,702]), (8016,[933,787]), (8018,[933,787,768]), (8020,[933,787,769]),
  (8022,[933,787,834]), (8064,[7944,921]), (8065,[7945,921]), (8066,[7946,921]),
  (8067,[7947,921]), (8068,[7948,921]), (8069,[7949,921]), (8070,[7950,921]), (8071,[7951,921]),
  (8072,[7944,921]), (8073,[7945,921]), (8074,[7946,921]), (8075,[7947,921]), (8076,[7948,921]),
  (8077,[7949,921]), (8078,[7950,921]), (8079,[7951,921]), (8080,[7976,921]), (8081,[7977,921]),
  (8082,[7978,921]), (8083,[7979,921]), (8084,[7980,921]), (8085,[7981,921]), (8086,[7982,921]),
  (8087,[7983,921]), (8088,[7976,921]), (8089,[7977,921]), (8090,[7978,921]), (8091,[7979,921]),
  (8092,[7980,921]), (8093,[7981,921]), (8094,[7982,921]), (8095,[7983,921]), (8096,[8040,921]),
  (8097,[8041,921]), (8098,[8042,921]), (8099,[8043,921]), (8100,[8044,921]), (8101,[8045,921]),
  (8102,[8046,921]), (8103,[8047,921]), (8104,[8040,921]), (8105,[8041,921]), (8106,[8042,921]),
  (8107,[8043,921]), (8108,[8044,921]), (8109,[8045,921]), (8110,[8046,921]), (8111,[8047,921]),
  (8114,[8122,921]), (8115,[913,921]), (8116,[902,921]), (8118,[913,834]), (8119,[913,834,921]),
  (8124,[913,921]), (8130,[8138,921]), (8131,[919,921]), (8132,[905,921]), (8134,[919,834]),
  (8135,[919,834,921]), (8140,[919,921]), (8146,[921,776,768]), (8147,[921,776,769]),
  (8150,[921,834]), (8151,[921,776,834]), (8162,[933,776,768]), (8163,[933,776,769]),
  (8164,[929,787]), (8166,[933,834]), (8167,[933,776,834]), (8178,[8186,921]), (8179,[937,921]),
  (8180,[911,921]), (8182,[937,834]), (8183,[937,834,921]), (8188,[937,921]), (64256,[70,70]),
  (64257,[70,73]), (64258,[70,76]), (64259,[70,70,73]), (64260,[70,70,76]), (64261,[83,84]),
  (64262,[83,84]), (64275,[1348,1350]), (64276,[1348,1333]), (64277,[1348,1339]),
  (64278,[1358,1350]), (64279,[1348,1341])]

def lowerRuns : List CaseRun := [
  ⟨192,214,1,32⟩, ⟨216,222,1,32⟩, ⟨256,302,2,1⟩, ⟨306,310,2,1⟩, ⟨313,327,2,1⟩, ⟨330,374,2,1⟩,
  ⟨376,376,1,-121⟩, ⟨377,381,2,1⟩, ⟨385,385,1,210⟩, ⟨386,388,2,1⟩, ⟨390,390,1,206⟩,
  ⟨391,391,1,1⟩, ⟨393,394,1,205⟩, ⟨395,395,1,1⟩, ⟨398,398,1,79⟩, ⟨399,399,1,202⟩,
  ⟨400,400,1,203⟩, ⟨401,401,1,1⟩, ⟨403,403,1,205⟩, ⟨404,404,1,207⟩, ⟨406,406,1,211⟩,
  ⟨407,407,1,209⟩, ⟨408,408,1,1⟩, ⟨412,412,1,211⟩, ⟨413,413,1,213⟩, ⟨415,415,1,214⟩,
  ⟨416,420,2,1⟩, ⟨422,422,1,218⟩, ⟨423,423,1,1⟩, ⟨425,425,1,218⟩, ⟨428,428,1,1⟩, ⟨430,430,1,218⟩,
  ⟨431,431,1,1⟩, ⟨433,434,1,217⟩, ⟨435,437,2,1⟩, ⟨439,439,1,219⟩, ⟨440,440,1,1⟩, ⟨444,444,1,1⟩,
  ⟨452,452,1,2⟩, ⟨453,453,1,1⟩, ⟨455,455,1,2⟩, ⟨456,456,1,1⟩, ⟨458,458,1,2⟩, ⟨459,475,2,1⟩,
  ⟨478,494,2,1⟩, ⟨497,497,1,2⟩, ⟨498,500,2,1⟩, ⟨502,502,1,-97⟩, ⟨503,503,1,-56⟩, ⟨504,542,2,1⟩,
  ⟨544,544,1,-130⟩, ⟨546,562,2,1⟩, ⟨570,570,1,10795⟩, ⟨571,571,1,1⟩, ⟨573,573,1,-163⟩,
  ⟨574,574,1,10792⟩, ⟨577,577,1,1⟩, ⟨579,579,1,-195⟩, ⟨580,580,1,69⟩, ⟨581,581,1,71⟩,
  ⟨582,590,2,1⟩, ⟨880,882,2,1⟩, ⟨886,886,1,1⟩, ⟨895,895,1,116⟩, ⟨902,902,1,38⟩, ⟨904,906,1,37⟩,
  ⟨908,908,1,64⟩, ⟨910,911,1,63⟩, ⟨913,929,1,32⟩, ⟨931,939,1,32⟩, ⟨975,975,1,8⟩, ⟨984,1006,2,1⟩,
  ⟨1012,1012,1,-60⟩, ⟨1015,1015,1,1⟩, ⟨1017,1017,1,-7⟩, ⟨1018,1018,1,1⟩, ⟨1021,1023,1,-130⟩,
  ⟨1024,1039,1,80⟩, ⟨1040,1071,1,32⟩, ⟨1120,1152,2,1⟩, ⟨1162,1214,2,1⟩, ⟨1216,1216,1,15⟩,
  ⟨1217,1229,2,1⟩, ⟨1232,1326,2,1⟩, ⟨1329,1366,1,48⟩, ⟨4256,4293,1,7264⟩, ⟨4295,4295,1,7264⟩,
  ⟨4301,4301,1,7264⟩, ⟨5024,5103,1,38864⟩, ⟨5104,5109,1,8⟩, ⟨7312,7354,1,-3008⟩,
  ⟨7357,7359,1,-3008⟩, ⟨7680,7828,2,1⟩, ⟨7838,7838,1,-7615⟩, ⟨7840,7934,2,1⟩, ⟨7944,7951,1,-8⟩,
  ⟨7960,7965,1,-8⟩, ⟨7976,7983,1,-8⟩, ⟨7992,7999,1,-8⟩, ⟨8008,8013,1,-8⟩, ⟨8025,8031,2,-8⟩,
  ⟨8040,8047,1,-8⟩, ⟨8072,8079,1,-8⟩, ⟨8088,8095,1,-8⟩, ⟨8104,8111,1,-8⟩, ⟨8120,8121,1,-8⟩,
  ⟨8122,8123,1,-74⟩, ⟨8124,8124,1,-9⟩, ⟨8136,8139,1,-86⟩, ⟨8140,8140,1,-9⟩, ⟨8152,8153,1,-8⟩,
  ⟨8154,8155,1,-100⟩, ⟨8168,8169,1,-8⟩, ⟨8170,8171,1,-112⟩, ⟨8172,8172,1,-7⟩, ⟨8184,8185,1,-128⟩,
  ⟨8186,8187,1,-126⟩, ⟨8188,8188,1,-9⟩, ⟨8486,8486,1,-7517⟩, ⟨8490,8490,1,-8383⟩,
  ⟨8491,8491,1,-8262⟩, ⟨8498,8498,1,28⟩, ⟨8544,8559,1,16⟩, ⟨8579,8579,1,1⟩, ⟨9398,9423,1,26⟩,
  ⟨11264,11311,1,48⟩, ⟨11360,11360,1,1⟩, ⟨11362,11362,1,-10743⟩, ⟨11363,11363,1,-3814⟩,
  ⟨11364,11364,1,-10727⟩, ⟨11367,11371,2,1⟩, ⟨11373,11373,1,-10780⟩, ⟨11374,11374,1,-10749⟩,
  ⟨11375,11375,1,-10783⟩, ⟨11376,11376,1,-10782⟩, ⟨11378,11378,1,1⟩, ⟨11381,11381,1,1⟩,
  ⟨11390,11391,1,-10815⟩, ⟨11392,11490,2,1⟩, ⟨11499,11501,2,1⟩, ⟨11506,11506,1,1⟩,
  ⟨42560,42604,2,1⟩, ⟨42624,42650,2,1⟩, ⟨42786,42798,2,1⟩, ⟨42802,42862,2,1⟩, ⟨42873,42875,2,1⟩,
  ⟨42877,42877,1,-35332⟩, ⟨42878,42886,2,1⟩, ⟨42891,42891,1,1⟩, ⟨42893,42893,1,-42280⟩,
  ⟨42896,42898,2,1⟩, ⟨42902,42920,2,1⟩, ⟨42922,42922,1,-42308⟩, ⟨42923,42923,1,-42319⟩,
  ⟨42924,42924,1,-42315⟩, ⟨42925,42925,1,-42305⟩, ⟨42926,42926,1,-42308⟩, ⟨42928,42928,1,-42258⟩,
  ⟨42929,42929,1,-42282⟩, ⟨42930,42930,1,-42261⟩, ⟨42931,42931,1,928⟩, ⟨42932,42946,2,1⟩,
  ⟨42948,42948,1,-48⟩, ⟨42949,42949,1,-42307⟩, ⟨42950,42950,1,-35384⟩, ⟨42951,42953,2,1⟩,
  ⟨42960,42960,1,1⟩, ⟨42966,42968,2,1⟩, ⟨42997,42997,1,1⟩, ⟨65313,65338,1,32⟩,
  ⟨66560,66599,1,40⟩, ⟨66736,66771,1,40⟩, ⟨66928,66938,1,39⟩, ⟨66940,66954,1,39⟩,
  ⟨66956,66962,1,39⟩, ⟨66964,66965,1,39⟩, ⟨68736,68786,1,64⟩, ⟨71840,71871,1,32⟩,
  ⟨93760,93791,1,32⟩, ⟨125184,125217,1,34⟩]

def upperPoint (p : ℕ) : List ℕ :=
  if p < 128 then [if 97 ≤ p ∧ p ≤ 122 then p - 32 else p]
  else (specialUpper.lookup p).getD [shiftCase upperRuns p]

/-- Sigma has one lower case here; the word-final form is not told apart. -/
def lowerPoint (p : ℕ) : List ℕ :=
  if p < 128 then [if 65 ≤ p ∧ p ≤ 90 then p + 32 else p]
  else if p = 0x130 then [0x69, 0x307]
  else [shiftCase lowerRuns p]

def toUpperCase (s : JSString) : JSString :=
  (codePoints s).flatMap fun p => (upperPoint p).flatMap encodePoint

def toLowerCase (s : JSString) : JSString :=
  (codePoints s).flatMap fun p => (lowerPoint p).flatMap encodePoint


theorem codePoints_ascii (s : JSString) (h : ∀ u ∈ s, u < 128) : codePoints s = s.map (·.toNat) := by
  induction s with
  | nil => rfl
  | cons u s ih =>
    have hu : isHighSurrogate u = false := by
      have := h u (by simp)
      simp [isHighSurrogate, UInt16.le_iff_toNat_le, UInt16.lt_iff_toNat_lt] at this ⊢
      omega
    cases s with
    | nil => rfl
    | cons v s =>
      rw [codePoints, hu, ih fun w hw => h w (by simp [hw])]
      simp

theorem encodeURIComponent_unreserved (s : JSString) (h : ∀ u ∈ s, u < 128 ∧ isUnreserved u = true) :
    encodeURIComponent s = some s := by
  rw [encodeURIComponent, codePoints_ascii s fun u hu => (h u hu).1]
  induction s with
  | nil => rfl
  | cons u s ih =>
    obtain ⟨⟨hu, hun⟩, hs⟩ := List.forall_mem_cons.mp h
    have hlt : u.toNat < 0x80 := by simpa [UInt16.lt_iff_toNat_lt] using hu
    have hsur : ¬ (0xD800 ≤ u.toNat ∧ u.toNat < 0xE000) := by omega
    rw [List.map_cons, List.foldr_cons, ih hs, Option.bind_some, if_neg hsur,
      if_pos ⟨hlt, by simpa using hun⟩]
    simp

theorem exists_encodeURIComponent {s : JSString} (h : WellFormed s) :
    ∃ t, encodeURIComponent s = some t := by
  unfold encodeURIComponent
  unfold WellFormed at h
  generalize codePoints s = ps at h ⊢
  induction ps with
  | nil => exact ⟨[], rfl⟩
  | cons p ps ih =>
    obtain ⟨hp, hps⟩ := List.forall_mem_cons.mp h
    obtain ⟨t, ht⟩ := ih hps
    rw [List.foldr_cons, ht, Option.bind_some, if_neg hp]
    split_ifs
    · exact ⟨_, rfl⟩
    · exact ⟨_, rfl⟩

theorem toUpperCase_append (s t : JSString) (hs : ∀ u ∈ s, u < 128) (ht : ∀ u ∈ t, u < 128) :
    toUpperCase (s ++ t) = toUpperCase s ++ toUpperCase t := by
  have hst : ∀ u ∈ s ++ t, u < 128 := fun u hu => (List.mem_append.mp hu).elim (hs u) (ht u)
  simp [toUpperCase, codePoints_ascii _ hst, codePoints_ascii _ hs, codePoints_ascii _ ht]

theorem encodePoint_toNat (u : CodeUnit) : encodePoint u.toNat = [u] := by
  have hu : u.toNat < 0x10000 := u.toNat_lt
  simp [encodePoint, hu]

theorem toUpperCase_eq_self (s : JSString) (h : ∀ u ∈ s, u < 128 ∧ isLower u = false) :
    toUpperCase s = s := by
  rw [toUpperCase, codePoints_ascii s fun u hu => (h u hu).1, List.flatMap_map]
  induction s with
  | nil => rfl
  | cons u s ih =>
    obtain ⟨hu, hl⟩ := h u (by simp)
    have hp : upperPoint u.toNat = [u.toNat] := by
      simp [isLower, UInt16.le_iff_toNat_le, UInt16.lt_iff_toNat_lt] at hu hl
      simp [upperPoint, hu]
      omega
    rw [List.flatMap_cons, ih fun v hv => h v (by simp [hv]), hp]
    simp [encodePoint_toNat]

example : toUpperCase (js "tsla") = js "TSLA" := by decide
example : toUpperCase (js "ßéﬁ𐐨") = js "SSÉFI𐐀" := by decide

/-! ## Text that upper-cases to ASCII -/

/-- The points beyond ASCII whose upper case is ASCII. -/
def asciiUppers : List ℕ := [223, 305, 383, 64256, 64257, 64258, 64259, 64260, 64261, 64262]

def spacePoints : List ℕ := [9, 10, 11, 12, 13, 32, 160, 5760, 8192, 8193, 8194, 8195, 8196, 8197,
  8198, 8199, 8200, 8201, 8202, 8232, 8233, 8239, 8287, 12288, 65279]

theorem mem_spacePoints (u : CodeUnit) : isSpace u = true ↔ u.toNat ∈ spacePoints := by
  simp [isSpace, spacePoints, UInt16.le_iff_toNat_le, ← UInt16.toNat_inj]
  omega

theorem upperRuns_ascii : ∀ r ∈ upperRuns,
    128 ≤ (r.lo : ℤ) + r.delta ∨ (r.lo = r.hi ∧ r.lo ∈ asciiUppers) := by decide +kernel

theorem specialUpper_ascii : ∀ e ∈ specialUpper,
    (∃ q ∈ e.2, 128 ≤ q) ∨ e.1 ∈ asciiUppers := by decide +kernel

def reserved : List ℕ := asciiUppers ++ spacePoints ++ (List.range 26).map (97 + ·)

theorem upperRuns_reserved : ∀ r ∈ upperRuns, ∀ t ∈ reserved,
    ¬ ((r.lo : ℤ) ≤ t - r.delta ∧ (t : ℤ) - r.delta ≤ r.hi ∧
      ((t : ℤ) - r.delta - r.lo) % r.stride = 0) := by decide +kernel

theorem specialUpper_reserved : ∀ e ∈ specialUpper, ∀ q ∈ e.2, q ∉ reserved := by decide +kernel

theorem asciiUppers_move : ∀ p ∈ asciiUppers, p ∉ upperPoint p := by decide +kernel

theorem upperPoint_cases (p : ℕ) :
    (p < 128 ∧ upperPoint p = [if 97 ≤ p ∧ p ≤ 122 then p - 32 else p]) ∨
    (∃ qs, (p, qs) ∈ specialUpper ∧ upperPoint p = qs) ∨
    (∃ r ∈ upperRuns, r.covers p = true ∧ upperPoint p = [((p : ℤ) + r.delta).toNat]) ∨
    (128 ≤ p ∧ upperPoint p = [p]) := by
  by_cases hp : p < 128
  · exact .inl ⟨hp, by rw [upperPoint, if_pos hp]⟩
  · have hu : upperPoint p = (specialUpper.lookup p).getD [shiftCase upperRuns p] := by
      rw [upperPoint, if_neg hp]
    cases hs : specialUpper.lookup p with
    | some qs =>
      obtain ⟨l₁, l₂, hl, -⟩ := List.lookup_eq_some_iff.mp hs
      exact .inr (.inl ⟨qs, by rw [hl]; simp, by rw [hu, hs, Option.getD_some]⟩)
    | none =>
      rw [hs, Option.getD_none, shiftCase] at hu
      cases hr : upperRuns.find? (·.covers p) with
      | some r =>
        have hc := List.find?_some hr
        simp only [hr] at hu
        exact .inr (.inr (.inl ⟨r, List.mem_of_find?_eq_some hr, hc, hu⟩))
      | none =>
        simp only [hr] at hu
        exact .inr (.inr (.inr ⟨by omega, hu⟩))

/-- No small letter is an upper case, nor is a point that folds further onto ASCII; and only a space
has a space for its upper case. -/
theorem upperPoint_image {p q : ℕ} (h : q ∈ upperPoint p) (hq : q ∈ reserved) :
    q = p ∧ q ∈ spacePoints := by
  obtain ⟨hp, hu⟩ | ⟨qs, hmem, hu⟩ | ⟨r, hmem, hc, hu⟩ | ⟨hp, hu⟩ := upperPoint_cases p
  · have hsmall : ∀ n, n < 128 → (if 97 ≤ n ∧ n ≤ 122 then n - 32 else n) ∈ reserved →
        (if 97 ≤ n ∧ n ≤ 122 then n - 32 else n) = n ∧ n ∈ spacePoints := by decide +kernel
    rw [hu, List.mem_singleton] at h
    rw [h] at hq ⊢
    obtain ⟨heq, hsp⟩ := hsmall p hp hq
    exact ⟨heq, by rwa [heq]⟩
  · exact absurd hq (specialUpper_reserved _ hmem q (hu ▸ h))
  · rw [hu, List.mem_singleton] at h
    simp only [CaseRun.covers, Bool.and_eq_true, decide_eq_true_eq, beq_iff_eq] at hc
    have hpos : 0 < q := by
      have : ∀ t ∈ reserved, 0 < t := by decide
      exact this q hq
    have hpq : (q : ℤ) - r.delta = p := by omega
    refine absurd ⟨?_, ?_, ?_⟩ (upperRuns_reserved r hmem q hq)
    · omega
    · omega
    · rw [hpq, ← Nat.cast_sub hc.1.1, ← Int.natCast_mod, hc.2]
      rfl
  · rw [hu, List.mem_singleton] at h
    subst h
    refine ⟨rfl, ?_⟩
    rcases List.mem_append.mp hq with hq | hq
    · rcases List.mem_append.mp hq with hq | hq
      · exact absurd (by rw [hu]; simp) (asciiUppers_move q hq)
      · exact hq
    · simp at hq
      omega

theorem upperPoint_ascii {p : ℕ} (h : ∀ q ∈ upperPoint p, q < 128) : p < 128 ∨ p ∈ asciiUppers := by
  obtain ⟨hp, -⟩ | ⟨qs, hmem, hu⟩ | ⟨r, hmem, hc, hu⟩ | ⟨hp, hu⟩ := upperPoint_cases p
  · exact .inl hp
  · obtain ⟨q, hq, hbig⟩ | hin := specialUpper_ascii _ hmem
    · have := h q (hu ▸ hq)
      omega
    · exact .inr hin
  · simp only [CaseRun.covers, Bool.and_eq_true, decide_eq_true_eq, beq_iff_eq] at hc
    have hq := h _ (hu ▸ List.mem_singleton_self _)
    obtain hbig | ⟨heq, hin⟩ := upperRuns_ascii r hmem
    · omega
    · obtain rfl : p = r.lo := by omega
      exact .inr hin
  · exact .inl (h p (hu ▸ List.mem_singleton_self _))

theorem upperPoint_ne_nil (p : ℕ) : upperPoint p ≠ [] := by
  have hspecial : ∀ e ∈ specialUpper, e.2 ≠ [] := by decide
  obtain ⟨-, hu⟩ | ⟨qs, hmem, hu⟩ | ⟨r, -, -, hu⟩ | ⟨-, hu⟩ := upperPoint_cases p
  · simp [hu]
  · exact hu ▸ hspecial _ hmem
  · simp [hu]
  · simp [hu]

theorem upperPoint_lt {p q : ℕ} (h : q ∈ upperPoint p) (hp : p < 0x110000) : q < 0x110000 := by
  have hruns : ∀ r ∈ upperRuns, (r.hi : ℤ) + r.delta < 0x110000 := by decide +kernel
  have hspecial : ∀ e ∈ specialUpper, ∀ q ∈ e.2, q < 0x110000 := by decide +kernel
  obtain ⟨hs, hu⟩ | ⟨qs, hmem, hu⟩ | ⟨r, hmem, hc, hu⟩ | ⟨-, hu⟩ := upperPoint_cases p
  · rw [hu, List.mem_singleton] at h
    split_ifs at h <;> omega
  · exact hspecial _ hmem q (hu ▸ h)
  · rw [hu, List.mem_singleton] at h
    simp only [CaseRun.covers, Bool.and_eq_true, decide_eq_true_eq] at hc
    have := hruns r hmem
    omega
  · rw [hu, List.mem_singleton] at h
    omega

/-! Units and code points: below the surrogates they are the same. -/

theorem encodePoint_small {p : ℕ} (h : p < 0x10000) : encodePoint p = [UInt16.ofNat p] := by
  rw [encodePoint, if_pos h]

theorem encodePoint_ne_nil (p : ℕ) : encodePoint p ≠ [] := by
  rw [encodePoint]
  split_ifs <;> simp

theorem encodePoint_large {p : ℕ} (h : ¬ p < 0x10000) (hp : p < 0x110000) {u : CodeUnit}
    (hu : u ∈ encodePoint p) : 0xD800 ≤ u.toNat ∧ u.toNat < 0xE000 := by
  rw [encodePoint, if_neg h, List.mem_cons, List.mem_singleton] at hu
  rcases hu with rfl | rfl
  · rw [UInt16.toNat_ofNat']; omega
  · rw [UInt16.toNat_ofNat']; omega

theorem surrogate_not_reserved {n : ℕ} (h : n ∈ reserved) : ¬ (0xD800 ≤ n ∧ n < 0xE000) := by
  have : ∀ t ∈ reserved, ¬ (0xD800 ≤ t ∧ t < 0xE000) := by decide
  exact this n h

theorem codePoints_lt (s : JSString) : ∀ p ∈ codePoints s, p < 0x110000 := by
  induction s using codePoints.induct with
  | case1 => simp [codePoints]
  | case2 u =>
    have := u.toNat_lt
    simp only [codePoints, List.mem_singleton]
    omega
  | case3 u v s h ih =>
    rw [codePoints, if_pos h]
    refine List.forall_mem_cons.mpr ⟨?_, ih⟩
    simp [isHighSurrogate, isLowSurrogate, UInt16.le_iff_toNat_le] at h
    omega
  | case4 u v s h ih =>
    rw [codePoints, if_neg h]
    have := u.toNat_lt
    exact List.forall_mem_cons.mpr ⟨by omega, ih⟩

theorem utf8_lt (p : ℕ) (hp : p < 0x110000) : ∀ b ∈ utf8 p, b < 256 := by
  intro b hb
  unfold utf8 at hb
  split_ifs at hb <;> simp only [List.mem_cons, List.not_mem_nil, or_false] at hb <;> omega

theorem percentByte_units :
    ∀ b : Fin 256, (percentByte b).all (fun u => isUnreserved u || u == 37) = true := by
  decide +kernel

theorem encodeURIComponent_units (s t : JSString) (h : encodeURIComponent s = some t) :
    ∀ u ∈ t, (isUnreserved u || u == 37) = true := by
  have hlt := codePoints_lt s
  unfold encodeURIComponent at h
  generalize codePoints s = ps at h hlt
  induction ps generalizing t with
  | nil =>
    obtain rfl : [] = t := by simpa using h
    simp
  | cons p ps ih =>
    rw [List.foldr_cons, Option.bind_eq_some_iff] at h
    obtain ⟨rest, hrest, hp⟩ := h
    have hrest := ih rest hrest fun q hq => hlt q (List.mem_cons_of_mem p hq)
    split_ifs at hp with hsur hun
    · obtain rfl := Option.some.inj hp
      intro u hu
      rcases List.mem_cons.mp hu with rfl | hu
      · simp [hun.2]
      · exact hrest u hu
    · obtain rfl := Option.some.inj hp
      intro u hu
      rcases List.mem_append.mp hu with hu | hu
      · obtain ⟨b, hb, hu⟩ := List.mem_flatMap.mp hu
        have hb := utf8_lt p (hlt p List.mem_cons_self) b hb
        exact List.all_eq_true.mp (percentByte_units ⟨b, hb⟩) u hu
      · exact hrest u hu

theorem codePoints_small (s : JSString) (h : ∀ p ∈ codePoints s, p < 0x10000) :
    codePoints s = s.map (·.toNat) := by
  induction s using codePoints.induct with
  | case1 => rfl
  | case2 u => rfl
  | case3 u v s hc ih =>
    rw [codePoints, if_pos hc] at h
    have := h _ (List.mem_cons_self ..)
    omega
  | case4 u v s hc ih =>
    rw [codePoints, if_neg hc] at h ⊢
    rw [ih (List.forall_mem_cons.mp h).2]
    rfl

theorem codePoints_head (u : CodeUnit) (s : JSString) :
    ∃ p ps, codePoints (u :: s) = p :: ps ∧ (p = u.toNat ∨ 0x10000 ≤ p) := by
  cases s with
  | nil => exact ⟨_, _, rfl, .inl rfl⟩
  | cons v s =>
    rw [codePoints]
    split_ifs with h
    · exact ⟨_, _, rfl, .inr (by omega)⟩
    · exact ⟨_, _, rfl, .inl rfl⟩

theorem codePoints_last (s : JSString) (u : CodeUnit) :
    ∃ p ps, codePoints (s ++ [u]) = ps ++ [p] ∧ (p = u.toNat ∨ 0x10000 ≤ p) := by
  induction s using codePoints.induct with
  | case1 => exact ⟨u.toNat, [], rfl, .inl rfl⟩
  | case2 v =>
    rw [List.singleton_append, codePoints]
    split_ifs with h
    · exact ⟨_, [], rfl, .inr (by omega)⟩
    · exact ⟨u.toNat, [v.toNat], rfl, .inl rfl⟩
  | case3 v w s h ih =>
    obtain ⟨p, ps, hps, hp⟩ := ih
    refine ⟨p, (0x10000 + (v.toNat - 0xD800) * 0x400 + (w.toNat - 0xDC00)) :: ps, ?_, hp⟩
    rw [List.cons_append, List.cons_append, codePoints, if_pos h, hps, List.cons_append]
  | case4 v w s h ih =>
    obtain ⟨p, ps, hps, hp⟩ := ih
    refine ⟨p, v.toNat :: ps, ?_, hp⟩
    rw [List.cons_append, List.cons_append, codePoints, if_neg h, ← List.cons_append, hps,
      List.cons_append]

/-! The upper case of a string. -/

theorem upperUnit_reserved {p : ℕ} {u : CodeUnit} (hp : p < 0x110000)
    (hu : u ∈ (upperPoint p).flatMap encodePoint) (hr : u.toNat ∈ reserved) :
    p = u.toNat ∧ u.toNat ∈ spacePoints := by
  obtain ⟨q, hq, hu⟩ := List.mem_flatMap.mp hu
  by_cases hsmall : q < 0x10000
  · rw [encodePoint_small hsmall, List.mem_singleton] at hu
    have hun : u.toNat = q := by rw [hu, UInt16.toNat_ofNat']; omega
    rw [hun] at hr ⊢
    exact ⟨(upperPoint_image hq hr).1.symm, (upperPoint_image hq hr).2⟩
  · exact absurd (encodePoint_large hsmall (upperPoint_lt hq hp) hu) (surrogate_not_reserved hr)

theorem toUpperCase_reserved {s : JSString} {u : CodeUnit} (hu : u ∈ toUpperCase s)
    (hr : u.toNat ∈ reserved) : u.toNat ∈ spacePoints := by
  obtain ⟨p, hp, hu⟩ := List.mem_flatMap.mp hu
  exact (upperUnit_reserved (codePoints_lt s p hp) hu hr).2

theorem spacePoints_reserved {n : ℕ} (h : n ∈ spacePoints) : n ∈ reserved := by
  simp [reserved, h]

theorem trim_toUpperCase_trim (s : JSString) :
    trim (toUpperCase (trim s)) = toUpperCase (trim s) := by
  have hunit : ∀ p u, (upperPoint p).flatMap encodePoint ≠ [] ∧ (p < 0x110000 →
      u ∈ (upperPoint p).flatMap encodePoint → isSpace u = true → p = u.toNat) := by
    intro p u
    refine ⟨?_, fun hp hu hs => ?_⟩
    · obtain ⟨q, qs, hq⟩ := List.exists_cons_of_ne_nil (upperPoint_ne_nil p)
      simp [hq, encodePoint_ne_nil]
    · exact (upperUnit_reserved hp hu (spacePoints_reserved ((mem_spacePoints u).mp hs))).1
  apply trim_eq_self
  · intro u hu
    cases hx : trim s with
    | nil => rw [hx] at hu; cases hu
    | cons x xs =>
      obtain ⟨p, ps, hps, hp⟩ := codePoints_head x xs
      have hlt : p < 0x110000 := codePoints_lt (x :: xs) p (by simp [hps])
      rw [hx, toUpperCase, hps, List.flatMap_cons, List.head?_append_of_ne_nil _ (hunit p u).1] at hu
      by_contra hs
      have hpu := (hunit p u).2 hlt (List.mem_of_mem_head? hu) (by simpa using hs)
      have hxs : isSpace x = false := trim_head x (by rw [hx]; rfl)
      have hn := u.toNat_lt
      obtain rfl : u = x := UInt16.toNat_inj.mp (by omega)
      exact hs hxs
  · intro u hu
    rcases List.eq_nil_or_concat (trim s) with hx | ⟨xs, x, hx⟩
    · rw [hx] at hu; cases hu
    · rw [List.concat_eq_append] at hx
      obtain ⟨p, ps, hps, hp⟩ := codePoints_last xs x
      have hlt : p < 0x110000 := codePoints_lt (xs ++ [x]) p (by simp [hps])
      rw [hx, toUpperCase, hps, List.flatMap_append, List.flatMap_singleton,
        List.getLast?_append_of_ne_nil _ (hunit p u).1] at hu
      by_contra hs
      have hpu := (hunit p u).2 hlt (List.mem_of_mem_getLast? hu) (by simpa using hs)
      have hxs : isSpace x = false := trim_getLast x (by rw [hx]; simp)
      have hn := u.toNat_lt
      obtain rfl : u = x := UInt16.toNat_inj.mp (by omega)
      exact hs hxs

theorem toUpperCase_points_ascii {s : JSString} (h : ∀ u ∈ toUpperCase s, u.toNat < 128) :
    ∀ p ∈ codePoints s, p < 128 ∨ p ∈ asciiUppers := by
  intro p hp
  refine upperPoint_ascii fun q hq => ?_
  have hunits : ∀ u ∈ encodePoint q, u.toNat < 128 := fun u hu =>
    h u (List.mem_flatMap.mpr ⟨p, hp, List.mem_flatMap.mpr ⟨q, hq, hu⟩⟩)
  by_cases hsmall : q < 0x10000
  · have := hunits (UInt16.ofNat q) (by rw [encodePoint_small hsmall]; simp)
    rw [UInt16.toNat_ofNat'] at this
    omega
  · obtain ⟨u, us, hu⟩ := List.exists_cons_of_ne_nil (encodePoint_ne_nil q)
    have hmem : u ∈ encodePoint q := by simp [hu]
    have hge := encodePoint_large hsmall (upperPoint_lt hq (codePoints_lt s p hp)) hmem
    have := hunits u hmem
    omega

theorem toUpperCase_toUpperCase {s : JSString}
    (h : ∀ u ∈ toUpperCase (toUpperCase s), u.toNat < 128) :
    toUpperCase (toUpperCase s) = toUpperCase s := by
  have hpoints := toUpperCase_points_ascii h
  have hascii : ∀ p ∈ asciiUppers, p < 0x10000 ∧ p ∈ reserved ∧ p ∉ spacePoints := by decide
  have hmap : codePoints (toUpperCase s) = (toUpperCase s).map (·.toNat) := by
    refine codePoints_small _ fun p hp => ?_
    rcases hpoints p hp with hlt | hin
    · omega
    · exact (hascii p hin).1
  refine toUpperCase_eq_self _ fun u hu => ?_
  have hlower : ∀ n, 97 ≤ n ∧ n ≤ 122 → n ∈ reserved ∧ n ∉ spacePoints := by
    have : ∀ i, i < 26 → 97 + i ∈ reserved ∧ 97 + i ∉ spacePoints := by decide
    intro n hn
    simpa [show 97 + (n - 97) = n by omega] using this (n - 97) (by omega)
  constructor
  · rcases hpoints u.toNat (by rw [hmap]; exact List.mem_map_of_mem hu) with hlt | hin
    · exact UInt16.lt_iff_toNat_lt.mpr hlt
    · exact absurd (toUpperCase_reserved hu (hascii _ hin).2.1) (hascii _ hin).2.2
  · by_contra hl
    have hrange : 97 ≤ u.toNat ∧ u.toNat ≤ 122 := by
      simpa [isLower, UInt16.le_iff_toNat_le] using hl
    exact (hlower _ hrange).2 (toUpperCase_reserved hu (hlower _ hrange).1)

end Ecma
