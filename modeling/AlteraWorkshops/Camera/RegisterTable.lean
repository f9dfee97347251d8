import Mathlib.Tactic.Common

/-! The sensor registers that the MIPI firmware uploads for the 1280x720 mode. -/

namespace AlteraWorkshops.Camera

/-- `struct mira220_reg` -/
structure Mira220Reg where
  address : BitVec 16
  val : BitVec 8
  deriving DecidableEq

/-- The rows of the table, address and value. -/
def rows : List (ℕ × ℕ) :=
  [(0x1003, 0x2), (0x6006, 0x0), (0x6012, 0x1), (0x6013, 0x0), (0x6006, 0x1), (0x205D, 0x0),
    (0x2063, 0x0), (0x24DC, 0x13), (0x24DD, 0x3), (0x24DE, 0x3), (0x24DF, 0x0), (0x400A, 0x8),
    (0x400B, 0x0), (0x401A, 0x8), (0x401B, 0x0), (0x4006, 0x8), (0x401C, 0x6F), (0x204B, 0x3),
    (0x205B, 0x64), (0x205C, 0x0), (0x4018, 0x3F), (0x403B, 0xB), (0x403E, 0xE), (0x402B, 0x6),
    (0x401E, 0x2), (0x4038, 0x3B), (0x1077, 0x0), (0x1078, 0x0), (0x1009, 0x8), (0x100A, 0x0),
    (0x110F, 0x8), (0x1110, 0x0), (0x1006, 0x2), (0x402C, 0x64), (0x3064, 0x0), (0x3065, 0xF0),
    (0x4013, 0x13), (0x401F, 0x9), (0x4020, 0x13), (0x4044, 0x75), (0x4027, 0x0), (0x3215, 0x69),
    (0x3216, 0xF), (0x322B, 0x69), (0x322C, 0xF), (0x4051, 0x80), (0x4052, 0x10), (0x4057, 0x80),
    (0x4058, 0x10), (0x3212, 0x59), (0x4047, 0x8F), (0x4026, 0x10), (0x4032, 0x53),
    (0x4036, 0x17), (0x50B8, 0xF4), (0x3016, 0x0), (0x3017, 0x2C), (0x3018, 0x8C), (0x3019, 0x45),
    (0x301A, 0x5), (0x3013, 0xA), (0x301B, 0x0), (0x301C, 0x4), (0x301D, 0x88), (0x301E, 0x45),
    (0x301F, 0x5), (0x3020, 0x0), (0x3021, 0x4), (0x3022, 0x88), (0x3023, 0x45), (0x3024, 0x5),
    (0x3025, 0x0), (0x3026, 0x4), (0x3027, 0x88), (0x3028, 0x45), (0x3029, 0x5), (0x302F, 0x0),
    (0x3056, 0x0), (0x3057, 0x0), (0x3300, 0x1), (0x3301, 0x0), (0x3302, 0xB0), (0x3303, 0xB0),
    (0x3304, 0x16), (0x3305, 0x15), (0x3306, 0x1), (0x3307, 0x0), (0x3308, 0x30), (0x3309, 0xA0),
    (0x330A, 0x16), (0x330B, 0x15), (0x330C, 0x1), (0x330D, 0x0), (0x330E, 0x30), (0x330F, 0xA0),
    (0x3310, 0x16), (0x3311, 0x15), (0x3312, 0x1), (0x3313, 0x0), (0x3314, 0x30), (0x3315, 0xA0),
    (0x3316, 0x16), (0x3317, 0x15), (0x3318, 0x1), (0x3319, 0x0), (0x331A, 0x30), (0x331B, 0xA0),
    (0x331C, 0x16), (0x331D, 0x15), (0x331E, 0x1), (0x331F, 0x0), (0x3320, 0x30), (0x3321, 0xA0),
    (0x3322, 0x16), (0x3323, 0x15), (0x3324, 0x1), (0x3325, 0x0), (0x3326, 0x30), (0x3327, 0xA0),
    (0x3328, 0x16), (0x3329, 0x15), (0x332A, 0x2B), (0x332B, 0x0), (0x332C, 0x30), (0x332D, 0xA0),
    (0x332E, 0x16), (0x332F, 0x15), (0x3330, 0x1), (0x3331, 0x0), (0x3332, 0x10), (0x3333, 0xA0),
    (0x3334, 0x16), (0x3335, 0x15), (0x3058, 0x8), (0x3059, 0x0), (0x305A, 0x9), (0x305B, 0x0),
    (0x3336, 0x1), (0x3337, 0x0), (0x3338, 0x90), (0x3339, 0xB0), (0x333A, 0x16), (0x333B, 0x15),
    (0x333C, 0x1F), (0x333D, 0x0), (0x333E, 0x10), (0x333F, 0xA0), (0x3340, 0x16), (0x3341, 0x15),
    (0x3342, 0x52), (0x3343, 0x0), (0x3344, 0x10), (0x3345, 0x80), (0x3346, 0x16), (0x3347, 0x15),
    (0x3348, 0x1), (0x3349, 0x0), (0x334A, 0x10), (0x334B, 0x80), (0x334C, 0x16), (0x334D, 0x1D),
    (0x334E, 0x1), (0x334F, 0x0), (0x3350, 0x50), (0x3351, 0x84), (0x3352, 0x16), (0x3353, 0x1D),
    (0x3354, 0x18), (0x3355, 0x0), (0x3356, 0x10), (0x3357, 0x84), (0x3358, 0x16), (0x3359, 0x1D),
    (0x335A, 0x80), (0x335B, 0x2), (0x335C, 0x10), (0x335D, 0xC4), (0x335E, 0x14), (0x335F, 0x1D),
    (0x3360, 0xA5), (0x3361, 0x0), (0x3362, 0x10), (0x3363, 0x84), (0x3364, 0x16), (0x3365, 0x1D),
    (0x3366, 0x1), (0x3367, 0x0), (0x3368, 0x90), (0x3369, 0x84), (0x336A, 0x16), (0x336B, 0x1D),
    (0x336C, 0x12), (0x336D, 0x0), (0x336E, 0x10), (0x336F, 0x84), (0x3370, 0x16), (0x3371, 0x15),
    (0x3372, 0x32), (0x3373, 0x0), (0x3374, 0x30), (0x3375, 0x84), (0x3376, 0x16), (0x3377, 0x15),
    (0x3378, 0x26), (0x3379, 0x0), (0x337A, 0x10), (0x337B, 0x84), (0x337C, 0x16), (0x337D, 0x15),
    (0x337E, 0x80), (0x337F, 0x2), (0x3380, 0x10), (0x3381, 0xC4), (0x3382, 0x14), (0x3383, 0x15),
    (0x3384, 0xA9), (0x3385, 0x0), (0x3386, 0x10), (0x3387, 0x84), (0x3388, 0x16), (0x3389, 0x15),
    (0x338A, 0x41), (0x338B, 0x0), (0x338C, 0x10), (0x338D, 0x80), (0x338E, 0x16), (0x338F, 0x15),
    (0x3390, 0x2), (0x3391, 0x0), (0x3392, 0x10), (0x3393, 0xA0), (0x3394, 0x16), (0x3395, 0x15),
    (0x305C, 0x18), (0x305D, 0x0), (0x305E, 0x19), (0x305F, 0x0), (0x3396, 0x1), (0x3397, 0x0),
    (0x3398, 0x90), (0x3399, 0x30), (0x339A, 0x56), (0x339B, 0x57), (0x339C, 0x1), (0x339D, 0x0),
    (0x339E, 0x10), (0x339F, 0x20), (0x33A0, 0xD6), (0x33A1, 0x17), (0x33A2, 0x1), (0x33A3, 0x0),
    (0x33A4, 0x10), (0x33A5, 0x28), (0x33A6, 0xD6), (0x33A7, 0x17), (0x33A8, 0x3), (0x33A9, 0x0),
    (0x33AA, 0x10), (0x33AB, 0x20), (0x33AC, 0xD6), (0x33AD, 0x17), (0x33AE, 0x61), (0x33AF, 0x0),
    (0x33B0, 0x10), (0x33B1, 0x20), (0x33B2, 0xD6), (0x33B3, 0x15), (0x33B4, 0x1), (0x33B5, 0x0),
    (0x33B6, 0x10), (0x33B7, 0x20), (0x33B8, 0xD6), (0x33B9, 0x1D), (0x33BA, 0x1), (0x33BB, 0x0),
    (0x33BC, 0x50), (0x33BD, 0x20), (0x33BE, 0xD6), (0x33BF, 0x1D), (0x33C0, 0x2C), (0x33C1, 0x0),
    (0x33C2, 0x10), (0x33C3, 0x20), (0x33C4, 0xD6), (0x33C5, 0x1D), (0x33C6, 0x1), (0x33C7, 0x0),
    (0x33C8, 0x90), (0x33C9, 0x20), (0x33CA, 0xD6), (0x33CB, 0x1D), (0x33CC, 0x83), (0x33CD, 0x0),
    (0x33CE, 0x10), (0x33CF, 0x20), (0x33D0, 0xD6), (0x33D1, 0x15), (0x33D2, 0x1), (0x33D3, 0x0),
    (0x33D4, 0x10), (0x33D5, 0x30), (0x33D6, 0xD6), (0x33D7, 0x15), (0x33D8, 0x1), (0x33D9, 0x0),
    (0x33DA, 0x10), (0x33DB, 0x20), (0x33DC, 0xD6), (0x33DD, 0x15), (0x33DE, 0x1), (0x33DF, 0x0),
    (0x33E0, 0x10), (0x33E1, 0x20), (0x33E2, 0x56), (0x33E3, 0x15), (0x33E4, 0x7), (0x33E5, 0x0),
    (0x33E6, 0x10), (0x33E7, 0x20), (0x33E8, 0x16), (0x33E9, 0x15), (0x3060, 0x26), (0x3061, 0x0),
    (0x302A, 0xFF), (0x302B, 0xFF), (0x302C, 0xFF), (0x302D, 0xFF), (0x302E, 0x3F), (0x3013, 0xB),
    (0x102B, 0x2C), (0x102C, 0x1), (0x1035, 0x54), (0x1036, 0x0), (0x3090, 0x2A), (0x3091, 0x1),
    (0x30C6, 0x5), (0x30C7, 0x0), (0x30C8, 0x0), (0x30C9, 0x0), (0x30CA, 0x0), (0x30CB, 0x0),
    (0x30CC, 0x0), (0x30CD, 0x0), (0x30CE, 0x0), (0x30CF, 0x5), (0x30D0, 0x0), (0x30D1, 0x0),
    (0x30D2, 0x0), (0x30D3, 0x0), (0x30D4, 0x0), (0x30D5, 0x0), (0x30D6, 0x0), (0x30D7, 0x0),
    (0x30F3, 0x5), (0x30F4, 0x0), (0x30F5, 0x0), (0x30F6, 0x0), (0x30F7, 0x0), (0x30F8, 0x0),
    (0x30F9, 0x0), (0x30FA, 0x0), (0x30FB, 0x0), (0x30D8, 0x5), (0x30D9, 0x0), (0x30DA, 0x0),
    (0x30DB, 0x0), (0x30DC, 0x0), (0x30DD, 0x0), (0x30DE, 0x0), (0x30DF, 0x0), (0x30E0, 0x0),
    (0x30E1, 0x5), (0x30E2, 0x0), (0x30E3, 0x0), (0x30E4, 0x0), (0x30E5, 0x0), (0x30E6, 0x0),
    (0x30E7, 0x0), (0x30E8, 0x0), (0x30E9, 0x0), (0x30F3, 0x5), (0x30F4, 0x2), (0x30F5, 0x0),
    (0x30F6, 0x17), (0x30F7, 0x1), (0x30F8, 0x0), (0x30F9, 0x0), (0x30FA, 0x0), (0x30FB, 0x0),
    (0x30D8, 0x3), (0x30D9, 0x1), (0x30DA, 0x0), (0x30DB, 0x19), (0x30DC, 0x1), (0x30DD, 0x0),
    (0x30DE, 0x0), (0x30DF, 0x0), (0x30E0, 0x0), (0x30A2, 0x5), (0x30A3, 0x2), (0x30A4, 0x0),
    (0x30A5, 0x22), (0x30A6, 0x0), (0x30A7, 0x0), (0x30A8, 0x0), (0x30A9, 0x0), (0x30AA, 0x0),
    (0x30AB, 0x5), (0x30AC, 0x2), (0x30AD, 0x0), (0x30AE, 0x22), (0x30AF, 0x0), (0x30B0, 0x0),
    (0x30B1, 0x0), (0x30B2, 0x0), (0x30B3, 0x0), (0x30BD, 0x5), (0x30BE, 0x9F), (0x30BF, 0x0),
    (0x30C0, 0x7D), (0x30C1, 0x0), (0x30C2, 0x0), (0x30C3, 0x0), (0x30C4, 0x0), (0x30C5, 0x0),
    (0x30B4, 0x4), (0x30B5, 0x9C), (0x30B6, 0x0), (0x30B7, 0x7D), (0x30B8, 0x0), (0x30B9, 0x0),
    (0x30BA, 0x0), (0x30BB, 0x0), (0x30BC, 0x0), (0x30FC, 0x5), (0x30FD, 0x0), (0x30FE, 0x0),
    (0x30FF, 0x0), (0x3100, 0x0), (0x3101, 0x0), (0x3102, 0x0), (0x3103, 0x0), (0x3104, 0x0),
    (0x3105, 0x5), (0x3106, 0x0), (0x3107, 0x0), (0x3108, 0x0), (0x3109, 0x0), (0x310A, 0x0),
    (0x310B, 0x0), (0x310C, 0x0), (0x310D, 0x0), (0x3099, 0x5), (0x309A, 0x96), (0x309B, 0x0),
    (0x309C, 0x6), (0x309D, 0x0), (0x309E, 0x0), (0x309F, 0x0), (0x30A0, 0x0), (0x30A1, 0x0),
    (0x310E, 0x5), (0x310F, 0x2), (0x3110, 0x0), (0x3111, 0x2B), (0x3112, 0x0), (0x3113, 0x0),
    (0x3114, 0x0), (0x3115, 0x0), (0x3116, 0x0), (0x3117, 0x5), (0x3118, 0x2), (0x3119, 0x0),
    (0x311A, 0x2C), (0x311B, 0x0), (0x311C, 0x0), (0x311D, 0x0), (0x311E, 0x0), (0x311F, 0x0),
    (0x30EA, 0x0), (0x30EB, 0x0), (0x30EC, 0x0), (0x30ED, 0x0), (0x30EE, 0x0), (0x30EF, 0x0),
    (0x30F0, 0x0), (0x30F1, 0x0), (0x30F2, 0x0), (0x313B, 0x3), (0x313C, 0x31), (0x313D, 0x0),
    (0x313E, 0x7), (0x313F, 0x0), (0x3140, 0x68), (0x3141, 0x0), (0x3142, 0x34), (0x3143, 0x0),
    (0x31A0, 0x3), (0x31A1, 0x16), (0x31A2, 0x0), (0x31A3, 0x8), (0x31A4, 0x0), (0x31A5, 0x7E),
    (0x31A6, 0x0), (0x31A7, 0x8), (0x31A8, 0x0), (0x31A9, 0x3), (0x31AA, 0x16), (0x31AB, 0x0),
    (0x31AC, 0x8), (0x31AD, 0x0), (0x31AE, 0x7E), (0x31AF, 0x0), (0x31B0, 0x8), (0x31B1, 0x0),
    (0x31B2, 0x3), (0x31B3, 0x16), (0x31B4, 0x0), (0x31B5, 0x8), (0x31B6, 0x0), (0x31B7, 0x7E),
    (0x31B8, 0x0), (0x31B9, 0x8), (0x31BA, 0x0), (0x3120, 0x5), (0x3121, 0x45), (0x3122, 0x0),
    (0x3123, 0x1D), (0x3124, 0x0), (0x3125, 0xA9), (0x3126, 0x0), (0x3127, 0x6D), (0x3128, 0x0),
    (0x3129, 0x5), (0x312A, 0x15), (0x312B, 0x0), (0x312C, 0xA), (0x312D, 0x0), (0x312E, 0x45),
    (0x312F, 0x0), (0x3130, 0x1D), (0x3131, 0x0), (0x3132, 0x5), (0x3133, 0x7D), (0x3134, 0x0),
    (0x3135, 0xA), (0x3136, 0x0), (0x3137, 0xA9), (0x3138, 0x0), (0x3139, 0x6D), (0x313A, 0x0),
    (0x3144, 0x5), (0x3145, 0x0), (0x3146, 0x0), (0x3147, 0x30), (0x3148, 0x0), (0x3149, 0x0),
    (0x314A, 0x0), (0x314B, 0x0), (0x314C, 0x0), (0x314D, 0x3), (0x314E, 0x0), (0x314F, 0x0),
    (0x3150, 0x31), (0x3151, 0x0), (0x3152, 0x0), (0x3153, 0x0), (0x3154, 0x0), (0x3155, 0x0),
    (0x31D8, 0x5), (0x31D9, 0x3A), (0x31DA, 0x0), (0x31DB, 0x2E), (0x31DC, 0x0), (0x31DD, 0x9E),
    (0x31DE, 0x0), (0x31DF, 0x7E), (0x31E0, 0x0), (0x31E1, 0x5), (0x31E2, 0x4), (0x31E3, 0x0),
    (0x31E4, 0x4), (0x31E5, 0x0), (0x31E6, 0x73), (0x31E7, 0x0), (0x31E8, 0x4), (0x31E9, 0x0),
    (0x31EA, 0x5), (0x31EB, 0x0), (0x31EC, 0x0), (0x31ED, 0x0), (0x31EE, 0x0), (0x31EF, 0x0),
    (0x31F0, 0x0), (0x31F1, 0x0), (0x31F2, 0x0), (0x31F3, 0x0), (0x31F4, 0x0), (0x31F5, 0x0),
    (0x31F6, 0x0), (0x31F7, 0x0), (0x31F8, 0x0), (0x31F9, 0x0), (0x31FA, 0x0), (0x31FB, 0x5),
    (0x31FC, 0x0), (0x31FD, 0x0), (0x31FE, 0x0), (0x31FF, 0x0), (0x3200, 0x0), (0x3201, 0x0),
    (0x3202, 0x0), (0x3203, 0x0), (0x3204, 0x0), (0x3205, 0x0), (0x3206, 0x0), (0x3207, 0x0),
    (0x3208, 0x0), (0x3209, 0x0), (0x320A, 0x0), (0x320B, 0x0), (0x3164, 0x5), (0x3165, 0x14),
    (0x3166, 0x0), (0x3167, 0xC), (0x3168, 0x0), (0x3169, 0x44), (0x316A, 0x0), (0x316B, 0x1F),
    (0x316C, 0x0), (0x316D, 0x5), (0x316E, 0x7C), (0x316F, 0x0), (0x3170, 0xC), (0x3171, 0x0),
    (0x3172, 0xA8), (0x3173, 0x0), (0x3174, 0x6F), (0x3175, 0x0), (0x31C4, 0x5), (0x31C5, 0x24),
    (0x31C6, 0x1), (0x31C7, 0x4), (0x31C8, 0x0), (0x31C9, 0x5), (0x31CA, 0x24), (0x31CB, 0x1),
    (0x31CC, 0x4), (0x31CD, 0x0), (0x31CE, 0x5), (0x31CF, 0x24), (0x31D0, 0x1), (0x31D1, 0x4),
    (0x31D2, 0x0), (0x31D3, 0x5), (0x31D4, 0x73), (0x31D5, 0x0), (0x31D6, 0xB1), (0x31D7, 0x0),
    (0x3176, 0x5), (0x3177, 0x10), (0x3178, 0x0), (0x3179, 0x56), (0x317A, 0x0), (0x317B, 0x0),
    (0x317C, 0x0), (0x317D, 0x0), (0x317E, 0x0), (0x317F, 0x5), (0x3180, 0x6A), (0x3181, 0x0),
    (0x3182, 0xAD), (0x3183, 0x0), (0x3184, 0x0), (0x3185, 0x0), (0x3186, 0x0), (0x3187, 0x0),
    (0x100C, 0x7E), (0x100D, 0x0), (0x1115, 0x7E), (0x1116, 0x0), (0x1012, 0xDF), (0x1013, 0x2B),
    (0x1002, 0x4), (0x0043, 0x0), (0x0043, 0x0), (0x0043, 0x4), (0x0043, 0xC), (0x1002, 0x4),
    (0x1001, 0x41), (0x10F2, 0x1), (0x10F3, 0x0), (0x1111, 0x1), (0x1112, 0x0), (0x0012, 0x0),
    (0x0012, 0x0), (0x1001, 0x41), (0x10D0, 0x0), (0x10D1, 0x0), (0x1012, 0xB0), (0x1013, 0x9),
    (0x1103, 0x91), (0x1104, 0xD), (0x100C, 0x80), (0x100D, 0x0), (0x1115, 0x80), (0x1116, 0x0),
    (0x102B, 0x90), (0x102C, 0x1), (0x1113, 0x30), (0x1114, 0x1), (0x2008, 0x80), (0x2009, 0x2),
    (0x2098, 0x20), (0x2099, 0x3), (0x200A, 0x50), (0x200B, 0x0), (0x209A, 0x0), (0x209B, 0x0),
    (0x207D, 0x0), (0x207E, 0x5), (0x107D, 0x54), (0x107E, 0x1), (0x1087, 0xD0), (0x1088, 0x2),
    (0x1105, 0x0), (0x1106, 0x0), (0x110A, 0x78), (0x110B, 0x5), (0x107D, 0x54), (0x107E, 0x1),
    (0x107F, 0x0), (0x1087, 0xD0), (0x1088, 0x2), (0x1089, 0x0), (0x1105, 0x0), (0x1106, 0x0),
    (0x1107, 0x0), (0x110A, 0x78), (0x110B, 0x5), (0x110C, 0x0), (0x107D, 0x54), (0x107E, 0x1),
    (0x107F, 0x0), (0x1080, 0x0), (0x1081, 0x0), (0x1087, 0xD0), (0x1088, 0x2), (0x1089, 0x0),
    (0x108A, 0x0), (0x108B, 0x0), (0x1105, 0x0), (0x1106, 0x0), (0x1107, 0x0), (0x1108, 0x0),
    (0x1109, 0x0), (0x110A, 0x78), (0x110B, 0x5), (0x110C, 0x0), (0x110D, 0x0), (0x110E, 0x0),
    (0x209C, 0x0), (0x209D, 0x0), (0x1095, 0x0), (0x2063, 0x0), (0x6006, 0x0), (0x5004, 0x1),
    (0x5086, 0x2), (0x5087, 0x4E), (0x5088, 0x0), (0x5090, 0x0), (0x5091, 0x8), (0x5092, 0x14),
    (0x5093, 0xF), (0x5094, 0x6), (0x5095, 0x32), (0x5096, 0xE), (0x5097, 0x0), (0x5098, 0x11),
    (0x5004, 0x0), (0x2066, 0x6C), (0x2067, 0x7), (0x206E, 0x7E), (0x206F, 0x6), (0x20AC, 0x7E),
    (0x20AD, 0x6), (0x2076, 0xC8), (0x2077, 0x0), (0x20B4, 0xC8), (0x20B5, 0x0), (0x2078, 0x1E),
    (0x2079, 0x4), (0x20B6, 0x1E), (0x20B7, 0x4), (0x207A, 0xD4), (0x207B, 0x4), (0x20B8, 0xD4),
    (0x20B9, 0x4), (0x208D, 0x4), (0x208E, 0x0), (0x207C, 0x0), (0x6001, 0x7), (0x6002, 0xD8),
    (0x6010, 0x0), (0x6010, 0x0), (0x6011, 0x0), (0x6011, 0x0), (0x6011, 0x0), (0x6012, 0x1),
    (0x6013, 0x0), (0x6016, 0x0), (0x6017, 0x0), (0x6037, 0x0), (0x6037, 0x0), (0x6037, 0x4),
    (0x6039, 0x1), (0x6018, 0x0), (0x6018, 0x0), (0x6065, 0x0), (0x6066, 0x0), (0x601C, 0x0),
    (0x601D, 0x0), (0x601E, 0x22), (0x601F, 0x0), (0x6003, 0x1), (0x6004, 0x7A), (0x6005, 0x12),
    (0x6006, 0x1), (0x4006, 0x8), (0x209E, 0x2), (0x2045, 0x1), (0x2048, 0x1), (0x204B, 0x3),
    (0x205B, 0x64), (0x205C, 0x0), (0x24DC, 0x12), (0x24DC, 0x10), (0x24DC, 0x0), (0x24DD, 0x0),
    (0x24DE, 0x0), (0x24DF, 0x0), (0x10D7, 0x1), (0x10D8, 0x2), (0x205D, 0x0), (0x205E, 0x0),
    (0x2063, 0x0), (0x2063, 0x0), (0x2091, 0x0), (0x2091, 0x0)]

/-- `full_1500mbps_1280_720_30fps_12b_2lanes_reg` -/
def full1500mbps1280x720Reg : List Mira220Reg :=
  rows.map fun row => ⟨BitVec.ofNat 16 row.1, BitVec.ofNat 8 row.2⟩

end AlteraWorkshops.Camera
