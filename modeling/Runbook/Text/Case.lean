/-!
# Letter case

Upper and lower case of all scripts. A letter whose other case is one letter is covered by a row
`(first, last, step, up, down)` of a table: every `step`-th code point from `first` to `last` moves
up by `up` and down by `down`. Letters whose other case is several letters are listed one by one.
`foldCase` sends every letter to a common representative of its case variants, so two characters are
equal up to case exactly when they have the same representative.
-/

namespace Runbook.Text

/-- A row of a table of cases. -/
abbrev Shift := Nat × Nat × Nat × Nat × Nat

/-- The code point that the first row covering `c` sends it to, `c` itself when no row does. -/
def shiftBy (table : List Shift) (c : Nat) : Nat :=
  match table with
  | [] => c
  | (lo, hi, step, up, down) :: rest =>
    if lo ≤ c && c ≤ hi && (c - lo) % step == 0 then c + up - down
    else if c < lo then c
    else shiftBy rest c

/-- Rows of the letters with a one-letter upper case. -/
def upperRows : List Shift := [
  (181, 181, 1, 743, 0), (224, 246, 1, 0, 32), (248, 254, 1, 0, 32), (255, 255, 1, 121, 0),
  (257, 303, 2, 0, 1), (305, 305, 1, 0, 232), (307, 311, 2, 0, 1), (314, 328, 2, 0, 1),
  (331, 375, 2, 0, 1), (378, 382, 2, 0, 1), (383, 383, 1, 0, 300), (384, 384, 1, 195, 0),
  (387, 389, 2, 0, 1), (392, 392, 1, 0, 1), (396, 396, 1, 0, 1), (402, 402, 1, 0, 1),
  (405, 405, 1, 97, 0), (409, 409, 1, 0, 1), (410, 410, 1, 163, 0), (414, 414, 1, 130, 0),
  (417, 421, 2, 0, 1), (424, 424, 1, 0, 1), (429, 429, 1, 0, 1), (432, 432, 1, 0, 1),
  (436, 438, 2, 0, 1), (441, 441, 1, 0, 1), (445, 445, 1, 0, 1), (447, 447, 1, 56, 0),
  (453, 453, 1, 0, 1), (454, 454, 1, 0, 2), (456, 456, 1, 0, 1), (457, 457, 1, 0, 2),
  (459, 459, 1, 0, 1), (460, 460, 1, 0, 2), (462, 476, 2, 0, 1), (477, 477, 1, 0, 79),
  (479, 495, 2, 0, 1), (498, 498, 1, 0, 1), (499, 499, 1, 0, 2), (501, 501, 1, 0, 1),
  (505, 543, 2, 0, 1), (547, 563, 2, 0, 1), (572, 572, 1, 0, 1), (575, 576, 1, 10815, 0),
  (578, 578, 1, 0, 1), (583, 591, 2, 0, 1), (592, 592, 1, 10783, 0), (593, 593, 1, 10780, 0),
  (594, 594, 1, 10782, 0), (595, 595, 1, 0, 210), (596, 596, 1, 0, 206), (598, 599, 1, 0, 205),
  (601, 601, 1, 0, 202), (603, 603, 1, 0, 203), (604, 604, 1, 42319, 0), (608, 608, 1, 0, 205),
  (609, 609, 1, 42315, 0), (611, 611, 1, 0, 207), (613, 613, 1, 42280, 0), (614, 614, 1, 42308, 0),
  (616, 616, 1, 0, 209), (617, 617, 1, 0, 211), (618, 618, 1, 42308, 0), (619, 619, 1, 10743, 0),
  (620, 620, 1, 42305, 0), (623, 623, 1, 0, 211), (625, 625, 1, 10749, 0), (626, 626, 1, 0, 213),
  (629, 629, 1, 0, 214), (637, 637, 1, 10727, 0), (640, 640, 1, 0, 218), (642, 642, 1, 42307, 0),
  (643, 643, 1, 0, 218), (647, 647, 1, 42282, 0), (648, 648, 1, 0, 218), (649, 649, 1, 0, 69),
  (650, 651, 1, 0, 217), (652, 652, 1, 0, 71), (658, 658, 1, 0, 219), (669, 669, 1, 42261, 0),
  (670, 670, 1, 42258, 0), (837, 837, 1, 84, 0), (881, 883, 2, 0, 1), (887, 887, 1, 0, 1),
  (891, 893, 1, 130, 0), (940, 940, 1, 0, 38), (941, 943, 1, 0, 37), (945, 961, 1, 0, 32),
  (962, 962, 1, 0, 31), (963, 971, 1, 0, 32), (972, 972, 1, 0, 64), (973, 974, 1, 0, 63),
  (976, 976, 1, 0, 62), (977, 977, 1, 0, 57), (981, 981, 1, 0, 47), (982, 982, 1, 0, 54),
  (983, 983, 1, 0, 8), (985, 1007, 2, 0, 1), (1008, 1008, 1, 0, 86), (1009, 1009, 1, 0, 80),
  (1010, 1010, 1, 7, 0), (1011, 1011, 1, 0, 116), (1013, 1013, 1, 0, 96), (1016, 1016, 1, 0, 1),
  (1019, 1019, 1, 0, 1), (1072, 1103, 1, 0, 32), (1104, 1119, 1, 0, 80), (1121, 1153, 2, 0, 1),
  (1163, 1215, 2, 0, 1), (1218, 1230, 2, 0, 1), (1231, 1231, 1, 0, 15), (1233, 1327, 2, 0, 1),
  (1377, 1414, 1, 0, 48), (4304, 4346, 1, 3008, 0), (4349, 4351, 1, 3008, 0), (5112, 5117, 1, 0, 8),
  (7296, 7296, 1, 0, 6254), (7297, 7297, 1, 0, 6253), (7298, 7298, 1, 0, 6244),
  (7299, 7300, 1, 0, 6242), (7301, 7301, 1, 0, 6243), (7302, 7302, 1, 0, 6236),
  (7303, 7303, 1, 0, 6181), (7304, 7304, 1, 35266, 0), (7545, 7545, 1, 35332, 0),
  (7549, 7549, 1, 3814, 0), (7566, 7566, 1, 35384, 0), (7681, 7829, 2, 0, 1),
  (7835, 7835, 1, 0, 59), (7841, 7935, 2, 0, 1), (7936, 7943, 1, 8, 0), (7952, 7957, 1, 8, 0),
  (7968, 7975, 1, 8, 0), (7984, 7991, 1, 8, 0), (8000, 8005, 1, 8, 0), (8017, 8023, 2, 8, 0),
  (8032, 8039, 1, 8, 0), (8048, 8049, 1, 74, 0), (8050, 8053, 1, 86, 0), (8054, 8055, 1, 100, 0),
  (8056, 8057, 1, 128, 0), (8058, 8059, 1, 112, 0), (8060, 8061, 1, 126, 0), (8112, 8113, 1, 8, 0),
  (8126, 8126, 1, 0, 7205), (8144, 8145, 1, 8, 0), (8160, 8161, 1, 8, 0), (8165, 8165, 1, 7, 0),
  (8526, 8526, 1, 0, 28), (8560, 8575, 1, 0, 16), (8580, 8580, 1, 0, 1), (9424, 9449, 1, 0, 26),
  (11312, 11359, 1, 0, 48), (11361, 11361, 1, 0, 1), (11365, 11365, 1, 0, 10795),
  (11366, 11366, 1, 0, 10792), (11368, 11372, 2, 0, 1), (11379, 11379, 1, 0, 1),
  (11382, 11382, 1, 0, 1), (11393, 11491, 2, 0, 1), (11500, 11502, 2, 0, 1),
  (11507, 11507, 1, 0, 1), (11520, 11557, 1, 0, 7264), (11559, 11559, 1, 0, 7264),
  (11565, 11565, 1, 0, 7264), (42561, 42605, 2, 0, 1), (42625, 42651, 2, 0, 1),
  (42787, 42799, 2, 0, 1), (42803, 42863, 2, 0, 1), (42874, 42876, 2, 0, 1),
  (42879, 42887, 2, 0, 1), (42892, 42892, 1, 0, 1), (42897, 42899, 2, 0, 1),
  (42900, 42900, 1, 48, 0), (42903, 42921, 2, 0, 1), (42933, 42947, 2, 0, 1),
  (42952, 42954, 2, 0, 1), (42961, 42961, 1, 0, 1), (42967, 42969, 2, 0, 1),
  (42998, 42998, 1, 0, 1), (43859, 43859, 1, 0, 928), (43888, 43967, 1, 0, 38864),
  (65345, 65370, 1, 0, 32), (66600, 66639, 1, 0, 40), (66776, 66811, 1, 0, 40),
  (66967, 66977, 1, 0, 39), (66979, 66993, 1, 0, 39), (66995, 67001, 1, 0, 39),
  (67003, 67004, 1, 0, 39), (68800, 68850, 1, 0, 64), (71872, 71903, 1, 0, 32),
  (93792, 93823, 1, 0, 32), (125218, 125251, 1, 0, 34)]

/-- Rows of the letters with a one-letter lower case. -/
def lowerRows : List Shift := [
  (192, 214, 1, 32, 0), (216, 222, 1, 32, 0), (256, 302, 2, 1, 0), (306, 310, 2, 1, 0),
  (313, 327, 2, 1, 0), (330, 374, 2, 1, 0), (376, 376, 1, 0, 121), (377, 381, 2, 1, 0),
  (385, 385, 1, 210, 0), (386, 388, 2, 1, 0), (390, 390, 1, 206, 0), (391, 391, 1, 1, 0),
  (393, 394, 1, 205, 0), (395, 395, 1, 1, 0), (398, 398, 1, 79, 0), (399, 399, 1, 202, 0),
  (400, 400, 1, 203, 0), (401, 401, 1, 1, 0), (403, 403, 1, 205, 0), (404, 404, 1, 207, 0),
  (406, 406, 1, 211, 0), (407, 407, 1, 209, 0), (408, 408, 1, 1, 0), (412, 412, 1, 211, 0),
  (413, 413, 1, 213, 0), (415, 415, 1, 214, 0), (416, 420, 2, 1, 0), (422, 422, 1, 218, 0),
  (423, 423, 1, 1, 0), (425, 425, 1, 218, 0), (428, 428, 1, 1, 0), (430, 430, 1, 218, 0),
  (431, 431, 1, 1, 0), (433, 434, 1, 217, 0), (435, 437, 2, 1, 0), (439, 439, 1, 219, 0),
  (440, 440, 1, 1, 0), (444, 444, 1, 1, 0), (452, 452, 1, 2, 0), (453, 453, 1, 1, 0),
  (455, 455, 1, 2, 0), (456, 456, 1, 1, 0), (458, 458, 1, 2, 0), (459, 475, 2, 1, 0),
  (478, 494, 2, 1, 0), (497, 497, 1, 2, 0), (498, 500, 2, 1, 0), (502, 502, 1, 0, 97),
  (503, 503, 1, 0, 56), (504, 542, 2, 1, 0), (544, 544, 1, 0, 130), (546, 562, 2, 1, 0),
  (570, 570, 1, 10795, 0), (571, 571, 1, 1, 0), (573, 573, 1, 0, 163), (574, 574, 1, 10792, 0),
  (577, 577, 1, 1, 0), (579, 579, 1, 0, 195), (580, 580, 1, 69, 0), (581, 581, 1, 71, 0),
  (582, 590, 2, 1, 0), (880, 882, 2, 1, 0), (886, 886, 1, 1, 0), (895, 895, 1, 116, 0),
  (902, 902, 1, 38, 0), (904, 906, 1, 37, 0), (908, 908, 1, 64, 0), (910, 911, 1, 63, 0),
  (913, 929, 1, 32, 0), (931, 939, 1, 32, 0), (975, 975, 1, 8, 0), (984, 1006, 2, 1, 0),
  (1012, 1012, 1, 0, 60), (1015, 1015, 1, 1, 0), (1017, 1017, 1, 0, 7), (1018, 1018, 1, 1, 0),
  (1021, 1023, 1, 0, 130), (1024, 1039, 1, 80, 0), (1040, 1071, 1, 32, 0), (1120, 1152, 2, 1, 0),
  (1162, 1214, 2, 1, 0), (1216, 1216, 1, 15, 0), (1217, 1229, 2, 1, 0), (1232, 1326, 2, 1, 0),
  (1329, 1366, 1, 48, 0), (4256, 4293, 1, 7264, 0), (4295, 4295, 1, 7264, 0),
  (4301, 4301, 1, 7264, 0), (5024, 5103, 1, 38864, 0), (5104, 5109, 1, 8, 0),
  (7312, 7354, 1, 0, 3008), (7357, 7359, 1, 0, 3008), (7680, 7828, 2, 1, 0),
  (7838, 7838, 1, 0, 7615), (7840, 7934, 2, 1, 0), (7944, 7951, 1, 0, 8), (7960, 7965, 1, 0, 8),
  (7976, 7983, 1, 0, 8), (7992, 7999, 1, 0, 8), (8008, 8013, 1, 0, 8), (8025, 8031, 2, 0, 8),
  (8040, 8047, 1, 0, 8), (8072, 8079, 1, 0, 8), (8088, 8095, 1, 0, 8), (8104, 8111, 1, 0, 8),
  (8120, 8121, 1, 0, 8), (8122, 8123, 1, 0, 74), (8124, 8124, 1, 0, 9), (8136, 8139, 1, 0, 86),
  (8140, 8140, 1, 0, 9), (8152, 8153, 1, 0, 8), (8154, 8155, 1, 0, 100), (8168, 8169, 1, 0, 8),
  (8170, 8171, 1, 0, 112), (8172, 8172, 1, 0, 7), (8184, 8185, 1, 0, 128), (8186, 8187, 1, 0, 126),
  (8188, 8188, 1, 0, 9), (8486, 8486, 1, 0, 7517), (8490, 8490, 1, 0, 8383),
  (8491, 8491, 1, 0, 8262), (8498, 8498, 1, 28, 0), (8544, 8559, 1, 16, 0), (8579, 8579, 1, 1, 0),
  (9398, 9423, 1, 26, 0), (11264, 11311, 1, 48, 0), (11360, 11360, 1, 1, 0),
  (11362, 11362, 1, 0, 10743), (11363, 11363, 1, 0, 3814), (11364, 11364, 1, 0, 10727),
  (11367, 11371, 2, 1, 0), (11373, 11373, 1, 0, 10780), (11374, 11374, 1, 0, 10749),
  (11375, 11375, 1, 0, 10783), (11376, 11376, 1, 0, 10782), (11378, 11378, 1, 1, 0),
  (11381, 11381, 1, 1, 0), (11390, 11391, 1, 0, 10815), (11392, 11490, 2, 1, 0),
  (11499, 11501, 2, 1, 0), (11506, 11506, 1, 1, 0), (42560, 42604, 2, 1, 0),
  (42624, 42650, 2, 1, 0), (42786, 42798, 2, 1, 0), (42802, 42862, 2, 1, 0),
  (42873, 42875, 2, 1, 0), (42877, 42877, 1, 0, 35332), (42878, 42886, 2, 1, 0),
  (42891, 42891, 1, 1, 0), (42893, 42893, 1, 0, 42280), (42896, 42898, 2, 1, 0),
  (42902, 42920, 2, 1, 0), (42922, 42922, 1, 0, 42308), (42923, 42923, 1, 0, 42319),
  (42924, 42924, 1, 0, 42315), (42925, 42925, 1, 0, 42305), (42926, 42926, 1, 0, 42308),
  (42928, 42928, 1, 0, 42258), (42929, 42929, 1, 0, 42282), (42930, 42930, 1, 0, 42261),
  (42931, 42931, 1, 928, 0), (42932, 42946, 2, 1, 0), (42948, 42948, 1, 0, 48),
  (42949, 42949, 1, 0, 42307), (42950, 42950, 1, 0, 35384), (42951, 42953, 2, 1, 0),
  (42960, 42960, 1, 1, 0), (42966, 42968, 2, 1, 0), (42997, 42997, 1, 1, 0),
  (65313, 65338, 1, 32, 0), (66560, 66599, 1, 40, 0), (66736, 66771, 1, 40, 0),
  (66928, 66938, 1, 39, 0), (66940, 66954, 1, 39, 0), (66956, 66962, 1, 39, 0),
  (66964, 66965, 1, 39, 0), (68736, 68786, 1, 64, 0), (71840, 71871, 1, 32, 0),
  (93760, 93791, 1, 32, 0), (125184, 125217, 1, 34, 0)]

/-- Letters whose upper case is several letters. -/
def upperMany : List (Nat × List Nat) := [
  (223, [83, 83]), (329, [700, 78]), (496, [74, 780]), (912, [921, 776, 769]),
  (944, [933, 776, 769]), (1415, [1333, 1362]), (7830, [72, 817]), (7831, [84, 776]),
  (7832, [87, 778]), (7833, [89, 778]), (7834, [65, 702]), (8016, [933, 787]),
  (8018, [933, 787, 768]), (8020, [933, 787, 769]), (8022, [933, 787, 834]), (8064, [7944, 921]),
  (8065, [7945, 921]), (8066, [7946, 921]), (8067, [7947, 921]), (8068, [7948, 921]),
  (8069, [7949, 921]), (8070, [7950, 921]), (8071, [7951, 921]), (8072, [7944, 921]),
  (8073, [7945, 921]), (8074, [7946, 921]), (8075, [7947, 921]), (8076, [7948, 921]),
  (8077, [7949, 921]), (8078, [7950, 921]), (8079, [7951, 921]), (8080, [7976, 921]),
  (8081, [7977, 921]), (8082, [7978, 921]), (8083, [7979, 921]), (8084, [7980, 921]),
  (8085, [7981, 921]), (8086, [7982, 921]), (8087, [7983, 921]), (8088, [7976, 921]),
  (8089, [7977, 921]), (8090, [7978, 921]), (8091, [7979, 921]), (8092, [7980, 921]),
  (8093, [7981, 921]), (8094, [7982, 921]), (8095, [7983, 921]), (8096, [8040, 921]),
  (8097, [8041, 921]), (8098, [8042, 921]), (8099, [8043, 921]), (8100, [8044, 921]),
  (8101, [8045, 921]), (8102, [8046, 921]), (8103, [8047, 921]), (8104, [8040, 921]),
  (8105, [8041, 921]), (8106, [8042, 921]), (8107, [8043, 921]), (8108, [8044, 921]),
  (8109, [8045, 921]), (8110, [8046, 921]), (8111, [8047, 921]), (8114, [8122, 921]),
  (8115, [913, 921]), (8116, [902, 921]), (8118, [913, 834]), (8119, [913, 834, 921]),
  (8124, [913, 921]), (8130, [8138, 921]), (8131, [919, 921]), (8132, [905, 921]),
  (8134, [919, 834]), (8135, [919, 834, 921]), (8140, [919, 921]), (8146, [921, 776, 768]),
  (8147, [921, 776, 769]), (8150, [921, 834]), (8151, [921, 776, 834]), (8162, [933, 776, 768]),
  (8163, [933, 776, 769]), (8164, [929, 787]), (8166, [933, 834]), (8167, [933, 776, 834]),
  (8178, [8186, 921]), (8179, [937, 921]), (8180, [911, 921]), (8182, [937, 834]),
  (8183, [937, 834, 921]), (8188, [937, 921]), (64256, [70, 70]), (64257, [70, 73]),
  (64258, [70, 76]), (64259, [70, 70, 73]), (64260, [70, 70, 76]), (64261, [83, 84]),
  (64262, [83, 84]), (64275, [1348, 1350]), (64276, [1348, 1333]), (64277, [1348, 1339]),
  (64278, [1358, 1350]), (64279, [1348, 1341])]

/-- Rows that send each letter to the least of its case variants. -/
def foldRows : List Shift := [
  (97, 122, 1, 0, 32), (224, 246, 1, 0, 32), (248, 254, 1, 0, 32), (257, 303, 2, 0, 1),
  (307, 311, 2, 0, 1), (314, 328, 2, 0, 1), (331, 375, 2, 0, 1), (376, 376, 1, 0, 121),
  (378, 382, 2, 0, 1), (383, 383, 1, 0, 300), (387, 389, 2, 0, 1), (392, 392, 1, 0, 1),
  (396, 396, 1, 0, 1), (402, 402, 1, 0, 1), (409, 409, 1, 0, 1), (417, 421, 2, 0, 1),
  (424, 424, 1, 0, 1), (429, 429, 1, 0, 1), (432, 432, 1, 0, 1), (436, 438, 2, 0, 1),
  (441, 441, 1, 0, 1), (445, 445, 1, 0, 1), (453, 453, 1, 0, 1), (454, 454, 1, 0, 2),
  (456, 456, 1, 0, 1), (457, 457, 1, 0, 2), (459, 459, 1, 0, 1), (460, 460, 1, 0, 2),
  (462, 476, 2, 0, 1), (477, 477, 1, 0, 79), (479, 495, 2, 0, 1), (498, 498, 1, 0, 1),
  (499, 499, 1, 0, 2), (501, 501, 1, 0, 1), (502, 502, 1, 0, 97), (503, 503, 1, 0, 56),
  (505, 543, 2, 0, 1), (544, 544, 1, 0, 130), (547, 563, 2, 0, 1), (572, 572, 1, 0, 1),
  (573, 573, 1, 0, 163), (578, 578, 1, 0, 1), (579, 579, 1, 0, 195), (583, 591, 2, 0, 1),
  (595, 595, 1, 0, 210), (596, 596, 1, 0, 206), (598, 599, 1, 0, 205), (601, 601, 1, 0, 202),
  (603, 603, 1, 0, 203), (608, 608, 1, 0, 205), (611, 611, 1, 0, 207), (616, 616, 1, 0, 209),
  (617, 617, 1, 0, 211), (623, 623, 1, 0, 211), (626, 626, 1, 0, 213), (629, 629, 1, 0, 214),
  (640, 640, 1, 0, 218), (643, 643, 1, 0, 218), (648, 648, 1, 0, 218), (649, 649, 1, 0, 69),
  (650, 651, 1, 0, 217), (652, 652, 1, 0, 71), (658, 658, 1, 0, 219), (881, 883, 2, 0, 1),
  (887, 887, 1, 0, 1), (921, 921, 1, 0, 84), (924, 924, 1, 0, 743), (940, 940, 1, 0, 38),
  (941, 943, 1, 0, 37), (945, 952, 1, 0, 32), (953, 953, 1, 0, 116), (954, 955, 1, 0, 32),
  (956, 956, 1, 0, 775), (957, 961, 1, 0, 32), (962, 962, 1, 0, 31), (963, 971, 1, 0, 32),
  (972, 972, 1, 0, 64), (973, 974, 1, 0, 63), (976, 976, 1, 0, 62), (977, 977, 1, 0, 57),
  (981, 981, 1, 0, 47), (982, 982, 1, 0, 54), (983, 983, 1, 0, 8), (985, 1007, 2, 0, 1),
  (1008, 1008, 1, 0, 86), (1009, 1009, 1, 0, 80), (1011, 1011, 1, 0, 116), (1012, 1012, 1, 0, 92),
  (1013, 1013, 1, 0, 96), (1016, 1016, 1, 0, 1), (1017, 1017, 1, 0, 7), (1019, 1019, 1, 0, 1),
  (1021, 1023, 1, 0, 130), (1072, 1103, 1, 0, 32), (1104, 1119, 1, 0, 80), (1121, 1153, 2, 0, 1),
  (1163, 1215, 2, 0, 1), (1218, 1230, 2, 0, 1), (1231, 1231, 1, 0, 15), (1233, 1327, 2, 0, 1),
  (1377, 1414, 1, 0, 48), (5112, 5117, 1, 0, 8), (7296, 7296, 1, 0, 6254), (7297, 7297, 1, 0, 6253),
  (7298, 7298, 1, 0, 6244), (7299, 7300, 1, 0, 6242), (7301, 7301, 1, 0, 6243),
  (7302, 7302, 1, 0, 6236), (7303, 7303, 1, 0, 6181), (7312, 7354, 1, 0, 3008),
  (7357, 7359, 1, 0, 3008), (7681, 7829, 2, 0, 1), (7835, 7835, 1, 0, 59), (7838, 7838, 1, 0, 7615),
  (7841, 7935, 2, 0, 1), (7944, 7951, 1, 0, 8), (7960, 7965, 1, 0, 8), (7976, 7983, 1, 0, 8),
  (7992, 7999, 1, 0, 8), (8008, 8013, 1, 0, 8), (8025, 8031, 2, 0, 8), (8040, 8047, 1, 0, 8),
  (8072, 8079, 1, 0, 8), (8088, 8095, 1, 0, 8), (8104, 8111, 1, 0, 8), (8120, 8121, 1, 0, 8),
  (8122, 8123, 1, 0, 74), (8124, 8124, 1, 0, 9), (8126, 8126, 1, 0, 7289), (8136, 8139, 1, 0, 86),
  (8140, 8140, 1, 0, 9), (8152, 8153, 1, 0, 8), (8154, 8155, 1, 0, 100), (8168, 8169, 1, 0, 8),
  (8170, 8171, 1, 0, 112), (8172, 8172, 1, 0, 7), (8184, 8185, 1, 0, 128), (8186, 8187, 1, 0, 126),
  (8188, 8188, 1, 0, 9), (8486, 8486, 1, 0, 7549), (8490, 8490, 1, 0, 8415),
  (8491, 8491, 1, 0, 8294), (8526, 8526, 1, 0, 28), (8560, 8575, 1, 0, 16), (8580, 8580, 1, 0, 1),
  (9424, 9449, 1, 0, 26), (11312, 11359, 1, 0, 48), (11361, 11361, 1, 0, 1),
  (11362, 11362, 1, 0, 10743), (11363, 11363, 1, 0, 3814), (11364, 11364, 1, 0, 10727),
  (11365, 11365, 1, 0, 10795), (11366, 11366, 1, 0, 10792), (11368, 11372, 2, 0, 1),
  (11373, 11373, 1, 0, 10780), (11374, 11374, 1, 0, 10749), (11375, 11375, 1, 0, 10783),
  (11376, 11376, 1, 0, 10782), (11379, 11379, 1, 0, 1), (11382, 11382, 1, 0, 1),
  (11390, 11391, 1, 0, 10815), (11393, 11491, 2, 0, 1), (11500, 11502, 2, 0, 1),
  (11507, 11507, 1, 0, 1), (11520, 11557, 1, 0, 7264), (11559, 11559, 1, 0, 7264),
  (11565, 11565, 1, 0, 7264), (42561, 42569, 2, 0, 1), (42570, 42570, 1, 0, 35266),
  (42571, 42571, 1, 0, 35267), (42573, 42605, 2, 0, 1), (42625, 42651, 2, 0, 1),
  (42787, 42799, 2, 0, 1), (42803, 42863, 2, 0, 1), (42874, 42876, 2, 0, 1),
  (42877, 42877, 1, 0, 35332), (42879, 42887, 2, 0, 1), (42892, 42892, 1, 0, 1),
  (42893, 42893, 1, 0, 42280), (42897, 42899, 2, 0, 1), (42903, 42921, 2, 0, 1),
  (42922, 42922, 1, 0, 42308), (42923, 42923, 1, 0, 42319), (42924, 42924, 1, 0, 42315),
  (42925, 42925, 1, 0, 42305), (42926, 42926, 1, 0, 42308), (42928, 42928, 1, 0, 42258),
  (42929, 42929, 1, 0, 42282), (42930, 42930, 1, 0, 42261), (42933, 42947, 2, 0, 1),
  (42948, 42948, 1, 0, 48), (42949, 42949, 1, 0, 42307), (42950, 42950, 1, 0, 35384),
  (42952, 42954, 2, 0, 1), (42961, 42961, 1, 0, 1), (42967, 42969, 2, 0, 1),
  (42998, 42998, 1, 0, 1), (43859, 43859, 1, 0, 928), (43888, 43967, 1, 0, 38864),
  (65345, 65370, 1, 0, 32), (66600, 66639, 1, 0, 40), (66776, 66811, 1, 0, 40),
  (66967, 66977, 1, 0, 39), (66979, 66993, 1, 0, 39), (66995, 67001, 1, 0, 39),
  (67003, 67004, 1, 0, 39), (68800, 68850, 1, 0, 64), (71872, 71903, 1, 0, 32),
  (93792, 93823, 1, 0, 32), (125218, 125251, 1, 0, 34)]

/-- The upper case of a character, as one or more characters. -/
def upperChar (c : Char) : List Char :=
  if c.toNat < 128 then [c.toUpper]
  else match upperMany.find? (·.1 == c.toNat) with
    | some (_, cs) => cs.map Char.ofNat
    | none => [Char.ofNat (shiftBy upperRows c.toNat)]

/-- The lower case of a character; the dotted capital `I` is the only one with two letters. -/
def lowerChar (c : Char) : List Char :=
  if c.toNat < 128 then [c.toLower]
  else if c.toNat == 304 then ['i', Char.ofNat 775]
  else [Char.ofNat (shiftBy lowerRows c.toNat)]

/-- The least case variant of a character. -/
def foldCase (c : Char) : Char :=
  if c.toNat < 128 then c.toUpper else Char.ofNat (shiftBy foldRows c.toNat)

/-- The characters that a table of rows sends to `c`. -/
def sentTo (table : List Shift) (c : Nat) : List Nat :=
  table.filterMap fun (lo, hi, step, up, down) =>
    let d := c + down - up
    if lo ≤ d && d ≤ hi && (d - lo) % step == 0 then some d else none

/-- The case variants of a character, with the character itself. -/
def caseVariants (c : Char) : List Char :=
  let least := foldCase c
  let others := (sentTo foldRows least.toNat).map Char.ofNat
  c :: least :: others.filter fun d => foldCase d == least

/-- A character with a case of its own: one that another case changes. -/
def isCased (c : Char) : Bool := upperChar c != [c] || lowerChar c != [c]

/-- The upper case of a text. -/
def upper (s : String) : String := String.ofList (s.toList.flatMap upperChar)

/-- Lower case with the letters before the current one, nearest first. A capital sigma that ends a
word becomes the final sigma. -/
def lowerFrom (before : List Char) : List Char → List Char
  | [] => []
  | c :: rest =>
    let here :=
      if c == 'Σ' then
        let follows := match rest with
          | d :: _ => isCased d
          | [] => false
        let precedes := match before with
          | d :: _ => isCased d
          | [] => false
        if precedes && !follows then ['ς'] else ['σ']
      else lowerChar c
    here ++ lowerFrom (c :: before) rest

/-- The lower case of a text. -/
def lower (s : String) : String := String.ofList (lowerFrom [] s.toList)

end Runbook.Text
