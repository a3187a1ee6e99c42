/-!
Upper case of text: most letters have one capital, some become several characters, and all others
stay as they are.
-/

namespace Turnpike.Uppercase

/-- The letters from `first` to `last`, `step` apart, whose capitals are `shift` away. -/
structure Run where
  first : Nat
  last : Nat
  step : Nat
  shift : Int

def Run.covers (run : Run) (code : Nat) : Bool :=
  run.first ≤ code && code ≤ run.last && (code - run.first) % run.step == 0

def runs : List Run := [
  ⟨97, 122, 1, -32⟩,
  ⟨181, 181, 1, 743⟩, ⟨224, 246, 1, -32⟩, ⟨248, 254, 1, -32⟩, ⟨255, 255, 1, 121⟩,
  ⟨257, 303, 2, -1⟩, ⟨305, 305, 1, -232⟩, ⟨307, 311, 2, -1⟩, ⟨314, 328, 2, -1⟩, ⟨331, 375, 2, -1⟩,
  ⟨378, 382, 2, -1⟩, ⟨383, 383, 1, -300⟩, ⟨384, 384, 1, 195⟩, ⟨387, 389, 2, -1⟩, ⟨392, 392, 1, -1⟩,
  ⟨396, 396, 1, -1⟩, ⟨402, 402, 1, -1⟩, ⟨405, 405, 1, 97⟩, ⟨409, 409, 1, -1⟩, ⟨410, 410, 1, 163⟩,
  ⟨411, 411, 1, 42561⟩, ⟨414, 414, 1, 130⟩, ⟨417, 421, 2, -1⟩, ⟨424, 424, 1, -1⟩,
  ⟨429, 429, 1, -1⟩, ⟨432, 432, 1, -1⟩, ⟨436, 438, 2, -1⟩, ⟨441, 441, 1, -1⟩, ⟨445, 445, 1, -1⟩,
  ⟨447, 447, 1, 56⟩, ⟨453, 453, 1, -1⟩, ⟨454, 454, 1, -2⟩, ⟨456, 456, 1, -1⟩, ⟨457, 457, 1, -2⟩,
  ⟨459, 459, 1, -1⟩, ⟨460, 460, 1, -2⟩, ⟨462, 476, 2, -1⟩, ⟨477, 477, 1, -79⟩, ⟨479, 495, 2, -1⟩,
  ⟨498, 498, 1, -1⟩, ⟨499, 499, 1, -2⟩, ⟨501, 501, 1, -1⟩, ⟨505, 543, 2, -1⟩, ⟨547, 563, 2, -1⟩,
  ⟨572, 572, 1, -1⟩, ⟨575, 576, 1, 10815⟩, ⟨578, 578, 1, -1⟩, ⟨583, 591, 2, -1⟩,
  ⟨592, 592, 1, 10783⟩, ⟨593, 593, 1, 10780⟩, ⟨594, 594, 1, 10782⟩, ⟨595, 595, 1, -210⟩,
  ⟨596, 596, 1, -206⟩, ⟨598, 599, 1, -205⟩, ⟨601, 601, 1, -202⟩, ⟨603, 603, 1, -203⟩,
  ⟨604, 604, 1, 42319⟩, ⟨608, 608, 1, -205⟩, ⟨609, 609, 1, 42315⟩, ⟨611, 611, 1, -207⟩,
  ⟨612, 612, 1, 42343⟩, ⟨613, 613, 1, 42280⟩, ⟨614, 614, 1, 42308⟩, ⟨616, 616, 1, -209⟩,
  ⟨617, 617, 1, -211⟩, ⟨618, 618, 1, 42308⟩, ⟨619, 619, 1, 10743⟩, ⟨620, 620, 1, 42305⟩,
  ⟨623, 623, 1, -211⟩, ⟨625, 625, 1, 10749⟩, ⟨626, 626, 1, -213⟩, ⟨629, 629, 1, -214⟩,
  ⟨637, 637, 1, 10727⟩, ⟨640, 640, 1, -218⟩, ⟨642, 642, 1, 42307⟩, ⟨643, 643, 1, -218⟩,
  ⟨647, 647, 1, 42282⟩, ⟨648, 648, 1, -218⟩, ⟨649, 649, 1, -69⟩, ⟨650, 651, 1, -217⟩,
  ⟨652, 652, 1, -71⟩, ⟨658, 658, 1, -219⟩, ⟨669, 669, 1, 42261⟩, ⟨670, 670, 1, 42258⟩,
  ⟨837, 837, 1, 84⟩, ⟨881, 883, 2, -1⟩, ⟨887, 887, 1, -1⟩, ⟨891, 893, 1, 130⟩, ⟨940, 940, 1, -38⟩,
  ⟨941, 943, 1, -37⟩, ⟨945, 961, 1, -32⟩, ⟨962, 962, 1, -31⟩, ⟨963, 971, 1, -32⟩,
  ⟨972, 972, 1, -64⟩, ⟨973, 974, 1, -63⟩, ⟨976, 976, 1, -62⟩, ⟨977, 977, 1, -57⟩,
  ⟨981, 981, 1, -47⟩, ⟨982, 982, 1, -54⟩, ⟨983, 983, 1, -8⟩, ⟨985, 1007, 2, -1⟩,
  ⟨1008, 1008, 1, -86⟩, ⟨1009, 1009, 1, -80⟩, ⟨1010, 1010, 1, 7⟩, ⟨1011, 1011, 1, -116⟩,
  ⟨1013, 1013, 1, -96⟩, ⟨1016, 1016, 1, -1⟩, ⟨1019, 1019, 1, -1⟩, ⟨1072, 1103, 1, -32⟩,
  ⟨1104, 1119, 1, -80⟩, ⟨1121, 1153, 2, -1⟩, ⟨1163, 1215, 2, -1⟩, ⟨1218, 1230, 2, -1⟩,
  ⟨1231, 1231, 1, -15⟩, ⟨1233, 1327, 2, -1⟩, ⟨1377, 1414, 1, -48⟩, ⟨4304, 4346, 1, 3008⟩,
  ⟨4349, 4351, 1, 3008⟩, ⟨5112, 5117, 1, -8⟩, ⟨7296, 7296, 1, -6254⟩, ⟨7297, 7297, 1, -6253⟩,
  ⟨7298, 7298, 1, -6244⟩, ⟨7299, 7300, 1, -6242⟩, ⟨7301, 7301, 1, -6243⟩, ⟨7302, 7302, 1, -6236⟩,
  ⟨7303, 7303, 1, -6181⟩, ⟨7304, 7304, 1, 35266⟩, ⟨7306, 7306, 1, -1⟩, ⟨7545, 7545, 1, 35332⟩,
  ⟨7549, 7549, 1, 3814⟩, ⟨7566, 7566, 1, 35384⟩, ⟨7681, 7829, 2, -1⟩, ⟨7835, 7835, 1, -59⟩,
  ⟨7841, 7935, 2, -1⟩, ⟨7936, 7943, 1, 8⟩, ⟨7952, 7957, 1, 8⟩, ⟨7968, 7975, 1, 8⟩,
  ⟨7984, 7991, 1, 8⟩, ⟨8000, 8005, 1, 8⟩, ⟨8017, 8023, 2, 8⟩, ⟨8032, 8039, 1, 8⟩,
  ⟨8048, 8049, 1, 74⟩, ⟨8050, 8053, 1, 86⟩, ⟨8054, 8055, 1, 100⟩, ⟨8056, 8057, 1, 128⟩,
  ⟨8058, 8059, 1, 112⟩, ⟨8060, 8061, 1, 126⟩, ⟨8112, 8113, 1, 8⟩, ⟨8126, 8126, 1, -7205⟩,
  ⟨8144, 8145, 1, 8⟩, ⟨8160, 8161, 1, 8⟩, ⟨8165, 8165, 1, 7⟩, ⟨8526, 8526, 1, -28⟩,
  ⟨8560, 8575, 1, -16⟩, ⟨8580, 8580, 1, -1⟩, ⟨9424, 9449, 1, -26⟩, ⟨11312, 11359, 1, -48⟩,
  ⟨11361, 11361, 1, -1⟩, ⟨11365, 11365, 1, -10795⟩, ⟨11366, 11366, 1, -10792⟩,
  ⟨11368, 11372, 2, -1⟩, ⟨11379, 11379, 1, -1⟩, ⟨11382, 11382, 1, -1⟩, ⟨11393, 11491, 2, -1⟩,
  ⟨11500, 11502, 2, -1⟩, ⟨11507, 11507, 1, -1⟩, ⟨11520, 11557, 1, -7264⟩, ⟨11559, 11559, 1, -7264⟩,
  ⟨11565, 11565, 1, -7264⟩, ⟨42561, 42605, 2, -1⟩, ⟨42625, 42651, 2, -1⟩, ⟨42787, 42799, 2, -1⟩,
  ⟨42803, 42863, 2, -1⟩, ⟨42874, 42876, 2, -1⟩, ⟨42879, 42887, 2, -1⟩, ⟨42892, 42892, 1, -1⟩,
  ⟨42897, 42899, 2, -1⟩, ⟨42900, 42900, 1, 48⟩, ⟨42903, 42921, 2, -1⟩, ⟨42933, 42947, 2, -1⟩,
  ⟨42952, 42954, 2, -1⟩, ⟨42957, 42957, 1, -1⟩, ⟨42961, 42961, 1, -1⟩, ⟨42967, 42971, 2, -1⟩,
  ⟨42998, 42998, 1, -1⟩, ⟨43859, 43859, 1, -928⟩, ⟨43888, 43967, 1, -38864⟩,
  ⟨65345, 65370, 1, -32⟩, ⟨66600, 66639, 1, -40⟩, ⟨66776, 66811, 1, -40⟩, ⟨66967, 66977, 1, -39⟩,
  ⟨66979, 66993, 1, -39⟩, ⟨66995, 67001, 1, -39⟩, ⟨67003, 67004, 1, -39⟩, ⟨68800, 68850, 1, -64⟩,
  ⟨68976, 68997, 1, -32⟩, ⟨71872, 71903, 1, -32⟩, ⟨93792, 93823, 1, -32⟩, ⟨125218, 125251, 1, -34⟩]

/-- Letters whose capital form takes more than one character. -/
def expansions : List (Char × List Char) := [
  (Char.ofNat 223, [Char.ofNat 83, Char.ofNat 83]),
  (Char.ofNat 329, [Char.ofNat 700, Char.ofNat 78]),
  (Char.ofNat 496, [Char.ofNat 74, Char.ofNat 780]),
  (Char.ofNat 912, [Char.ofNat 921, Char.ofNat 776, Char.ofNat 769]),
  (Char.ofNat 944, [Char.ofNat 933, Char.ofNat 776, Char.ofNat 769]),
  (Char.ofNat 1415, [Char.ofNat 1333, Char.ofNat 1362]),
  (Char.ofNat 7830, [Char.ofNat 72, Char.ofNat 817]),
  (Char.ofNat 7831, [Char.ofNat 84, Char.ofNat 776]),
  (Char.ofNat 7832, [Char.ofNat 87, Char.ofNat 778]),
  (Char.ofNat 7833, [Char.ofNat 89, Char.ofNat 778]),
  (Char.ofNat 7834, [Char.ofNat 65, Char.ofNat 702]),
  (Char.ofNat 8016, [Char.ofNat 933, Char.ofNat 787]),
  (Char.ofNat 8018, [Char.ofNat 933, Char.ofNat 787, Char.ofNat 768]),
  (Char.ofNat 8020, [Char.ofNat 933, Char.ofNat 787, Char.ofNat 769]),
  (Char.ofNat 8022, [Char.ofNat 933, Char.ofNat 787, Char.ofNat 834]),
  (Char.ofNat 8064, [Char.ofNat 7944, Char.ofNat 921]),
  (Char.ofNat 8065, [Char.ofNat 7945, Char.ofNat 921]),
  (Char.ofNat 8066, [Char.ofNat 7946, Char.ofNat 921]),
  (Char.ofNat 8067, [Char.ofNat 7947, Char.ofNat 921]),
  (Char.ofNat 8068, [Char.ofNat 7948, Char.ofNat 921]),
  (Char.ofNat 8069, [Char.ofNat 7949, Char.ofNat 921]),
  (Char.ofNat 8070, [Char.ofNat 7950, Char.ofNat 921]),
  (Char.ofNat 8071, [Char.ofNat 7951, Char.ofNat 921]),
  (Char.ofNat 8072, [Char.ofNat 7944, Char.ofNat 921]),
  (Char.ofNat 8073, [Char.ofNat 7945, Char.ofNat 921]),
  (Char.ofNat 8074, [Char.ofNat 7946, Char.ofNat 921]),
  (Char.ofNat 8075, [Char.ofNat 7947, Char.ofNat 921]),
  (Char.ofNat 8076, [Char.ofNat 7948, Char.ofNat 921]),
  (Char.ofNat 8077, [Char.ofNat 7949, Char.ofNat 921]),
  (Char.ofNat 8078, [Char.ofNat 7950, Char.ofNat 921]),
  (Char.ofNat 8079, [Char.ofNat 7951, Char.ofNat 921]),
  (Char.ofNat 8080, [Char.ofNat 7976, Char.ofNat 921]),
  (Char.ofNat 8081, [Char.ofNat 7977, Char.ofNat 921]),
  (Char.ofNat 8082, [Char.ofNat 7978, Char.ofNat 921]),
  (Char.ofNat 8083, [Char.ofNat 7979, Char.ofNat 921]),
  (Char.ofNat 8084, [Char.ofNat 7980, Char.ofNat 921]),
  (Char.ofNat 8085, [Char.ofNat 7981, Char.ofNat 921]),
  (Char.ofNat 8086, [Char.ofNat 7982, Char.ofNat 921]),
  (Char.ofNat 8087, [Char.ofNat 7983, Char.ofNat 921]),
  (Char.ofNat 8088, [Char.ofNat 7976, Char.ofNat 921]),
  (Char.ofNat 8089, [Char.ofNat 7977, Char.ofNat 921]),
  (Char.ofNat 8090, [Char.ofNat 7978, Char.ofNat 921]),
  (Char.ofNat 8091, [Char.ofNat 7979, Char.ofNat 921]),
  (Char.ofNat 8092, [Char.ofNat 7980, Char.ofNat 921]),
  (Char.ofNat 8093, [Char.ofNat 7981, Char.ofNat 921]),
  (Char.ofNat 8094, [Char.ofNat 7982, Char.ofNat 921]),
  (Char.ofNat 8095, [Char.ofNat 7983, Char.ofNat 921]),
  (Char.ofNat 8096, [Char.ofNat 8040, Char.ofNat 921]),
  (Char.ofNat 8097, [Char.ofNat 8041, Char.ofNat 921]),
  (Char.ofNat 8098, [Char.ofNat 8042, Char.ofNat 921]),
  (Char.ofNat 8099, [Char.ofNat 8043, Char.ofNat 921]),
  (Char.ofNat 8100, [Char.ofNat 8044, Char.ofNat 921]),
  (Char.ofNat 8101, [Char.ofNat 8045, Char.ofNat 921]),
  (Char.ofNat 8102, [Char.ofNat 8046, Char.ofNat 921]),
  (Char.ofNat 8103, [Char.ofNat 8047, Char.ofNat 921]),
  (Char.ofNat 8104, [Char.ofNat 8040, Char.ofNat 921]),
  (Char.ofNat 8105, [Char.ofNat 8041, Char.ofNat 921]),
  (Char.ofNat 8106, [Char.ofNat 8042, Char.ofNat 921]),
  (Char.ofNat 8107, [Char.ofNat 8043, Char.ofNat 921]),
  (Char.ofNat 8108, [Char.ofNat 8044, Char.ofNat 921]),
  (Char.ofNat 8109, [Char.ofNat 8045, Char.ofNat 921]),
  (Char.ofNat 8110, [Char.ofNat 8046, Char.ofNat 921]),
  (Char.ofNat 8111, [Char.ofNat 8047, Char.ofNat 921]),
  (Char.ofNat 8114, [Char.ofNat 8122, Char.ofNat 921]),
  (Char.ofNat 8115, [Char.ofNat 913, Char.ofNat 921]),
  (Char.ofNat 8116, [Char.ofNat 902, Char.ofNat 921]),
  (Char.ofNat 8118, [Char.ofNat 913, Char.ofNat 834]),
  (Char.ofNat 8119, [Char.ofNat 913, Char.ofNat 834, Char.ofNat 921]),
  (Char.ofNat 8124, [Char.ofNat 913, Char.ofNat 921]),
  (Char.ofNat 8130, [Char.ofNat 8138, Char.ofNat 921]),
  (Char.ofNat 8131, [Char.ofNat 919, Char.ofNat 921]),
  (Char.ofNat 8132, [Char.ofNat 905, Char.ofNat 921]),
  (Char.ofNat 8134, [Char.ofNat 919, Char.ofNat 834]),
  (Char.ofNat 8135, [Char.ofNat 919, Char.ofNat 834, Char.ofNat 921]),
  (Char.ofNat 8140, [Char.ofNat 919, Char.ofNat 921]),
  (Char.ofNat 8146, [Char.ofNat 921, Char.ofNat 776, Char.ofNat 768]),
  (Char.ofNat 8147, [Char.ofNat 921, Char.ofNat 776, Char.ofNat 769]),
  (Char.ofNat 8150, [Char.ofNat 921, Char.ofNat 834]),
  (Char.ofNat 8151, [Char.ofNat 921, Char.ofNat 776, Char.ofNat 834]),
  (Char.ofNat 8162, [Char.ofNat 933, Char.ofNat 776, Char.ofNat 768]),
  (Char.ofNat 8163, [Char.ofNat 933, Char.ofNat 776, Char.ofNat 769]),
  (Char.ofNat 8164, [Char.ofNat 929, Char.ofNat 787]),
  (Char.ofNat 8166, [Char.ofNat 933, Char.ofNat 834]),
  (Char.ofNat 8167, [Char.ofNat 933, Char.ofNat 776, Char.ofNat 834]),
  (Char.ofNat 8178, [Char.ofNat 8186, Char.ofNat 921]),
  (Char.ofNat 8179, [Char.ofNat 937, Char.ofNat 921]),
  (Char.ofNat 8180, [Char.ofNat 911, Char.ofNat 921]),
  (Char.ofNat 8182, [Char.ofNat 937, Char.ofNat 834]),
  (Char.ofNat 8183, [Char.ofNat 937, Char.ofNat 834, Char.ofNat 921]),
  (Char.ofNat 8188, [Char.ofNat 937, Char.ofNat 921]),
  (Char.ofNat 64256, [Char.ofNat 70, Char.ofNat 70]),
  (Char.ofNat 64257, [Char.ofNat 70, Char.ofNat 73]),
  (Char.ofNat 64258, [Char.ofNat 70, Char.ofNat 76]),
  (Char.ofNat 64259, [Char.ofNat 70, Char.ofNat 70, Char.ofNat 73]),
  (Char.ofNat 64260, [Char.ofNat 70, Char.ofNat 70, Char.ofNat 76]),
  (Char.ofNat 64261, [Char.ofNat 83, Char.ofNat 84]),
  (Char.ofNat 64262, [Char.ofNat 83, Char.ofNat 84]),
  (Char.ofNat 64275, [Char.ofNat 1348, Char.ofNat 1350]),
  (Char.ofNat 64276, [Char.ofNat 1348, Char.ofNat 1333]),
  (Char.ofNat 64277, [Char.ofNat 1348, Char.ofNat 1339]),
  (Char.ofNat 64278, [Char.ofNat 1358, Char.ofNat 1350]),
  (Char.ofNat 64279, [Char.ofNat 1348, Char.ofNat 1341])]

def upperChar (c : Char) : List Char :=
  match expansions.find? fun entry => entry.1 == c with
  | some (_, chars) => chars
  | none =>
    match runs.find? fun run => run.covers c.toNat with
    | some run => [Char.ofNat (c.toNat + run.shift).toNat]
    | none => [c]

def upper (text : String) : String := String.ofList (text.toList.flatMap upperChar)

end Turnpike.Uppercase
