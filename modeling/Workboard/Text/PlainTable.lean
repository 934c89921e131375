/-! The plain letters that stand for letters with marks in lenient comparison. -/

namespace Workboard.Text

/-- Letters of the Latin blocks, small capitals and subscripts with the ASCII letter that each stands for,
    ascending. The letters from U+1D00 on share their plain letters with the beginning of the list, place by
    place, and so do the subscripts from U+2071 on. -/
def plainLetters : List (Nat × Nat) :=
  [
    (192, 65), (193, 65), (194, 65), (195, 65), (196, 65), (197, 65), (199, 67), (200, 69), (201, 69), (202, 69),
    (203, 69), (204, 73), (205, 73), (206, 73), (207, 73), (209, 78), (210, 79), (211, 79), (212, 79), (213, 79),
    (214, 79), (216, 79), (217, 85), (218, 85), (219, 85), (220, 85), (221, 89), (223, 115), (224, 97), (225, 97),
    (226, 97), (227, 97), (228, 97), (229, 97), (231, 99), (232, 101), (233, 101), (234, 101), (235, 101), (236, 105),
    (237, 105), (238, 105), (239, 105), (241, 110), (242, 111), (243, 111), (244, 111), (245, 111), (246, 111),
    (248, 111), (249, 117), (250, 117), (251, 117), (252, 117), (253, 121), (255, 121), (257, 97), (259, 97),
    (261, 97), (263, 99), (265, 99), (267, 99), (269, 99), (271, 100), (273, 100), (275, 101), (277, 101), (279, 101),
    (281, 101), (283, 101), (285, 103), (287, 103), (289, 103), (291, 103), (293, 104), (295, 104), (297, 105),
    (299, 105), (301, 105), (303, 105), (304, 73), (305, 105), (309, 106), (311, 107), (314, 108), (316, 108),
    (318, 108), (320, 108), (322, 108), (324, 110), (326, 110), (328, 110), (333, 111), (335, 111), (337, 111),
    (341, 114), (343, 114), (345, 114), (347, 115), (349, 115), (351, 115), (353, 115), (355, 116), (357, 116),
    (359, 116), (361, 117), (363, 117), (365, 117), (367, 117), (369, 117), (371, 117), (373, 119), (375, 121),
    (376, 89), (378, 122), (380, 122), (382, 122), (383, 115), (384, 98), (385, 66), (387, 98), (390, 79), (392, 99),
    (393, 68), (394, 68), (396, 100), (398, 69), (400, 69), (402, 102), (403, 71), (407, 73), (409, 107), (410, 108),
    (412, 77), (414, 110), (415, 79), (417, 111), (421, 112), (427, 116), (429, 116), (432, 117), (434, 86),
    (436, 121), (438, 122), (462, 97), (464, 105), (466, 111), (468, 117), (477, 101), (485, 103), (487, 103),
    (489, 107), (491, 111), (496, 106), (501, 103), (505, 110), (513, 97), (515, 97), (517, 101), (519, 101),
    (521, 105), (523, 105), (525, 111), (527, 111), (529, 114), (531, 114), (533, 117), (535, 117), (537, 115),
    (539, 116), (543, 104), (544, 78), (545, 100), (549, 122), (551, 97), (553, 101), (559, 111), (563, 121),
    (564, 108), (565, 110), (566, 116), (567, 106), (570, 65), (571, 67), (572, 99), (573, 76), (574, 84), (575, 115),
    (576, 122), (579, 66), (580, 85), (581, 86), (582, 69), (583, 101), (584, 74), (585, 106), (586, 81), (587, 113),
    (588, 82), (589, 114), (590, 89), (591, 121), (592, 97), (593, 97), (595, 98), (596, 111), (597, 99), (598, 100),
    (599, 100), (600, 101), (603, 101), (604, 101), (605, 101), (606, 101), (607, 106), (608, 103), (609, 103),
    (610, 71), (613, 104), (614, 104), (616, 105), (618, 73), (619, 108), (620, 108), (621, 108), (623, 109),
    (624, 109), (625, 109), (626, 110), (627, 110), (628, 78), (629, 111), (633, 114), (634, 114), (635, 114),
    (636, 114), (637, 114), (638, 114), (639, 114), (640, 82), (641, 82), (642, 115), (647, 116), (648, 116),
    (649, 117), (651, 118), (652, 118), (653, 119), (654, 121), (655, 89), (656, 122), (657, 122), (663, 99),
    (665, 66), (666, 101), (667, 71), (668, 72), (669, 106), (670, 107), (671, 76), (672, 113), (686, 104),
    (7424, 65), (7427, 65), (7428, 65), (7429, 65), (7431, 65), (7432, 65), (7433, 67), (7434, 69), (7435, 69),
    (7436, 69), (7437, 69), (7438, 73), (7439, 73), (7440, 73), (7441, 73), (7442, 78), (7443, 79), (7446, 79),
    (7447, 79), (7448, 79), (7449, 79), (7450, 79), (7451, 85), (7452, 85), (7453, 85), (7454, 85), (7455, 89),
    (7456, 115), (7457, 97), (7458, 97), (7522, 97), (7523, 97), (7524, 97), (7525, 97), (7681, 99), (7683, 101),
    (7685, 101), (7687, 101), (7691, 101), (7693, 105), (7695, 105), (7697, 105), (7699, 105), (7705, 110),
    (7707, 111), (7711, 111), (7713, 111), (7715, 111), (7717, 111), (7719, 111), (7721, 117), (7723, 117),
    (7725, 117), (7729, 117), (7731, 121), (7733, 121), (7735, 97), (7739, 97), (7741, 97), (7743, 99), (7745, 99),
    (7747, 99), (7749, 99), (7751, 100), (7755, 100), (7765, 101), (7767, 101), (7771, 101), (7775, 101), (7777, 101),
    (7779, 103), (7787, 103), (7789, 103), (7791, 103), (7793, 104), (7795, 104), (7797, 105), (7799, 105),
    (7807, 105), (7809, 105), (7811, 73), (7813, 105), (7817, 106), (7821, 107), (7823, 108), (7825, 108),
    (7827, 108), (7829, 108), (7830, 108), (7831, 110), (7832, 110), (7833, 110), (7834, 111), (7835, 111),
    (7841, 111), (7843, 114), (7865, 114), (7869, 114), (7881, 115), (7883, 115), (7885, 115), (7887, 115),
    (7909, 116), (7911, 116), (7923, 116), (7925, 117), (7927, 117), (8305, 65), (8341, 65), (8342, 65), (8343, 65),
    (8344, 65), (8346, 65), (8347, 67), (8348, 69), (8580, 69)]

end Workboard.Text
