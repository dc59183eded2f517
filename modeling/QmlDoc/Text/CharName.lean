set_option autoImplicit false

namespace QmlDoc.Text

/-- The names and the aliases of one word in Unicode 14.0, less the numbered aliases of
the variation selectors. A pattern has no blanks, so it can give no other names. -/
def charNames : List (String × Nat) :=
  [("NUL", 0x0), ("NULL", 0x0), ("SOH", 0x1), ("STX", 0x2), ("ETX", 0x3), ("EOT", 0x4),
    ("ENQ", 0x5), ("ENQUIRY", 0x5), ("ACK", 0x6), ("ACKNOWLEDGE", 0x6), ("ALERT", 0x7),
    ("BEL", 0x7), ("BACKSPACE", 0x8), ("BS", 0x8), ("HT", 0x9), ("TAB", 0x9), ("EOL", 0xa),
    ("LF", 0xa), ("NL", 0xa), ("VT", 0xb), ("FF", 0xc), ("CR", 0xd), ("SO", 0xe), ("SI", 0xf),
    ("DLE", 0x10), ("DC1", 0x11), ("DC2", 0x12), ("DC3", 0x13), ("DC4", 0x14), ("NAK", 0x15),
    ("SYN", 0x16), ("ETB", 0x17), ("CAN", 0x18), ("CANCEL", 0x18), ("EOM", 0x19), ("SUB", 0x1a),
    ("SUBSTITUTE", 0x1a), ("ESC", 0x1b), ("ESCAPE", 0x1b), ("FS", 0x1c), ("GS", 0x1d),
    ("RS", 0x1e), ("US", 0x1f), ("SP", 0x20), ("SPACE", 0x20), ("AMPERSAND", 0x26),
    ("APOSTROPHE", 0x27), ("ASTERISK", 0x2a), ("COMMA", 0x2c), ("HYPHEN-MINUS", 0x2d),
    ("SOLIDUS", 0x2f), ("COLON", 0x3a), ("SEMICOLON", 0x3b), ("TILDE", 0x7e), ("DEL", 0x7f),
    ("DELETE", 0x7f), ("PAD", 0x80), ("HOP", 0x81), ("BPH", 0x82), ("NBH", 0x83), ("IND", 0x84),
    ("INDEX", 0x84), ("NEL", 0x85), ("SSA", 0x86), ("ESA", 0x87), ("HTS", 0x88), ("HTJ", 0x89),
    ("VTS", 0x8a), ("PLD", 0x8b), ("PLU", 0x8c), ("RI", 0x8d), ("SS2", 0x8e), ("SS3", 0x8f),
    ("DCS", 0x90), ("PU1", 0x91), ("PU2", 0x92), ("STS", 0x93), ("CCH", 0x94), ("MW", 0x95),
    ("SPA", 0x96), ("EPA", 0x97), ("SOS", 0x98), ("SGC", 0x99), ("SCI", 0x9a), ("CSI", 0x9b),
    ("ST", 0x9c), ("OSC", 0x9d), ("PM", 0x9e), ("APC", 0x9f), ("NBSP", 0xa0), ("DIAERESIS", 0xa8),
    ("SHY", 0xad), ("MACRON", 0xaf), ("CEDILLA", 0xb8), ("CARON", 0x2c7), ("BREVE", 0x2d8),
    ("OGONEK", 0x2db), ("CGJ", 0x34f), ("ALM", 0x61c), ("FVS1", 0x180b), ("FVS2", 0x180c),
    ("FVS3", 0x180d), ("MVS", 0x180e), ("FVS4", 0x180f), ("ZWSP", 0x200b), ("ZWNJ", 0x200c),
    ("ZWJ", 0x200d), ("LRM", 0x200e), ("RLM", 0x200f), ("HYPHEN", 0x2010), ("DAGGER", 0x2020),
    ("BULLET", 0x2022), ("LRE", 0x202a), ("RLE", 0x202b), ("PDF", 0x202c), ("LRO", 0x202d),
    ("RLO", 0x202e), ("NNBSP", 0x202f), ("PRIME", 0x2032), ("CARET", 0x2038),
    ("INTERROBANG", 0x203d), ("OVERLINE", 0x203e), ("UNDERTIE", 0x203f), ("ASTERISM", 0x2042),
    ("TRICOLON", 0x205d), ("MMSP", 0x205f), ("WJ", 0x2060), ("LRI", 0x2066), ("RLI", 0x2067),
    ("FSI", 0x2068), ("PDI", 0x2069), ("SCRUPLE", 0x2108), ("RESPONSE", 0x211f),
    ("VERSICLE", 0x2123), ("AKTIESELSKAB", 0x214d), ("COMPLEMENT", 0x2201), ("INCREMENT", 0x2206),
    ("NABLA", 0x2207), ("INFINITY", 0x221e), ("ANGLE", 0x2220), ("DIVIDES", 0x2223),
    ("INTERSECTION", 0x2229), ("UNION", 0x222a), ("INTEGRAL", 0x222b), ("THEREFORE", 0x2234),
    ("BECAUSE", 0x2235), ("RATIO", 0x2236), ("PROPORTION", 0x2237), ("EXCESS", 0x2239),
    ("HOMOTHETIC", 0x223b), ("ESTIMATES", 0x2259), ("BETWEEN", 0x226c), ("PRECEDES", 0x227a),
    ("SUCCEEDS", 0x227b), ("MULTISET", 0x228c), ("ASSERTION", 0x22a6), ("MODELS", 0x22a7),
    ("TRUE", 0x22a8), ("FORCES", 0x22a9), ("MULTIMAP", 0x22b8), ("INTERCALATE", 0x22ba),
    ("XOR", 0x22bb), ("NAND", 0x22bc), ("NOR", 0x22bd), ("BOWTIE", 0x22c8), ("PITCHFORK", 0x22d4),
    ("HOUSE", 0x2302), ("PROJECTIVE", 0x2305), ("PERSPECTIVE", 0x2306), ("ARC", 0x2312),
    ("SEGMENT", 0x2313), ("SECTOR", 0x2314), ("WATCH", 0x231a), ("HOURGLASS", 0x231b),
    ("FROWN", 0x2322), ("SMILE", 0x2323), ("KEYBOARD", 0x2328), ("CYLINDRICITY", 0x232d),
    ("SYMMETRY", 0x232f), ("SLOPE", 0x2333), ("COUNTERBORE", 0x2334), ("COUNTERSINK", 0x2335),
    ("FUSE", 0x23db), ("STRAIGHTNESS", 0x23e4), ("FLATNESS", 0x23e5), ("STOPWATCH", 0x23f1),
    ("FISHEYE", 0x25c9), ("LOZENGE", 0x25ca), ("BULLSEYE", 0x25ce), ("CLOUD", 0x2601),
    ("UMBRELLA", 0x2602), ("SNOWMAN", 0x2603), ("COMET", 0x2604), ("LIGHTNING", 0x2607),
    ("THUNDERSTORM", 0x2608), ("SUN", 0x2609), ("CONJUNCTION", 0x260c), ("OPPOSITION", 0x260d),
    ("SALTIRE", 0x2613), ("SHAMROCK", 0x2618), ("CADUCEUS", 0x2624), ("ANKH", 0x2625),
    ("MERCURY", 0x263f), ("EARTH", 0x2641), ("JUPITER", 0x2643), ("SATURN", 0x2644),
    ("URANUS", 0x2645), ("NEPTUNE", 0x2646), ("PLUTO", 0x2647), ("ARIES", 0x2648),
    ("TAURUS", 0x2649), ("GEMINI", 0x264a), ("CANCER", 0x264b), ("LEO", 0x264c),
    ("VIRGO", 0x264d), ("LIBRA", 0x264e), ("SCORPIUS", 0x264f), ("SAGITTARIUS", 0x2650),
    ("CAPRICORN", 0x2651), ("AQUARIUS", 0x2652), ("PISCES", 0x2653), ("ANCHOR", 0x2693),
    ("SCALES", 0x2696), ("ALEMBIC", 0x2697), ("FLOWER", 0x2698), ("GEAR", 0x2699),
    ("FLEUR-DE-LIS", 0x269c), ("COFFIN", 0x26b0), ("NEUTER", 0x26b2), ("CERES", 0x26b3),
    ("PALLAS", 0x26b4), ("JUNO", 0x26b5), ("VESTA", 0x26b6), ("CHIRON", 0x26b7),
    ("SEXTILE", 0x26b9), ("SEMISEXTILE", 0x26ba), ("QUINCUNX", 0x26bb),
    ("SESQUIQUADRATE", 0x26bc), ("BASEBALL", 0x26be), ("RAIN", 0x26c6), ("OPHIUCHUS", 0x26ce),
    ("PICK", 0x26cf), ("CHAINS", 0x26d3), ("PENTAGRAM", 0x26e4), ("CHURCH", 0x26ea),
    ("CASTLE", 0x26eb), ("MOUNTAIN", 0x26f0), ("FOUNTAIN", 0x26f2), ("FERRY", 0x26f4),
    ("SAILBOAT", 0x26f5), ("SKIER", 0x26f7), ("TENT", 0x26fa), ("AIRPLANE", 0x2708),
    ("ENVELOPE", 0x2709), ("PENCIL", 0x270f), ("SPARKLES", 0x2728), ("SNOWFLAKE", 0x2744),
    ("SPARKLE", 0x2747), ("PERPENDICULAR", 0x27c2), ("THERMODYNAMIC", 0x29e7),
    ("RULE-DELAYED", 0x29f4), ("TINY", 0x29fe), ("MINY", 0x29ff), ("JOIN", 0x2a1d),
    ("FORKING", 0x2adc), ("NONFORKING", 0x2add), ("TRANSPLUTO", 0x2bd7), ("PROSERPINA", 0x2bd8),
    ("ASTRAEA", 0x2bd9), ("HYGIEA", 0x2bda), ("PHOLUS", 0x2bdb), ("NESSUS", 0x2bdc),
    ("CUPIDO", 0x2be0), ("HADES", 0x2be1), ("ZEUS", 0x2be2), ("KRONOS", 0x2be3),
    ("APOLLON", 0x2be4), ("ADMETOS", 0x2be5), ("VULCANUS", 0x2be6), ("POSEIDON", 0x2be7),
    ("SEDNA", 0x2bf2), ("PARAGRAPHOS", 0x2e0f), ("HYPODIASTOLE", 0x2e12), ("CAPITULUM", 0x2e3f),
    ("BOM", 0xfeff), ("ZWNBSP", 0xfeff), ("CYCLONE", 0x1f300), ("FOGGY", 0x1f301),
    ("SUNRISE", 0x1f305), ("RAINBOW", 0x1f308), ("VOLCANO", 0x1f30b), ("THERMOMETER", 0x1f321),
    ("FOG", 0x1f32b), ("TACO", 0x1f32e), ("BURRITO", 0x1f32f), ("CHESTNUT", 0x1f330),
    ("SEEDLING", 0x1f331), ("CACTUS", 0x1f335), ("TULIP", 0x1f337), ("ROSE", 0x1f339),
    ("HIBISCUS", 0x1f33a), ("SUNFLOWER", 0x1f33b), ("BLOSSOM", 0x1f33c), ("HERB", 0x1f33f),
    ("MUSHROOM", 0x1f344), ("TOMATO", 0x1f345), ("AUBERGINE", 0x1f346), ("GRAPES", 0x1f347),
    ("MELON", 0x1f348), ("WATERMELON", 0x1f349), ("TANGERINE", 0x1f34a), ("LEMON", 0x1f34b),
    ("BANANA", 0x1f34c), ("PINEAPPLE", 0x1f34d), ("PEAR", 0x1f350), ("PEACH", 0x1f351),
    ("CHERRIES", 0x1f352), ("STRAWBERRY", 0x1f353), ("HAMBURGER", 0x1f354),
    ("SPAGHETTI", 0x1f35d), ("BREAD", 0x1f35e), ("DANGO", 0x1f361), ("ODEN", 0x1f362),
    ("SUSHI", 0x1f363), ("DOUGHNUT", 0x1f369), ("COOKIE", 0x1f36a), ("CANDY", 0x1f36c),
    ("LOLLIPOP", 0x1f36d), ("CUSTARD", 0x1f36e), ("SHORTCAKE", 0x1f370), ("COOKING", 0x1f373),
    ("POPCORN", 0x1f37f), ("RIBBON", 0x1f380), ("JACK-O-LANTERN", 0x1f383),
    ("FIREWORKS", 0x1f386), ("BALLOON", 0x1f388), ("MICROPHONE", 0x1f3a4), ("CINEMA", 0x1f3a6),
    ("HEADPHONE", 0x1f3a7), ("TICKET", 0x1f3ab), ("BILLIARDS", 0x1f3b1), ("BOWLING", 0x1f3b3),
    ("SAXOPHONE", 0x1f3b7), ("GUITAR", 0x1f3b8), ("TRUMPET", 0x1f3ba), ("VIOLIN", 0x1f3bb),
    ("SNOWBOARDER", 0x1f3c2), ("RUNNER", 0x1f3c3), ("SURFER", 0x1f3c4), ("TROPHY", 0x1f3c6),
    ("SWIMMER", 0x1f3ca), ("GOLFER", 0x1f3cc), ("VOLLEYBALL", 0x1f3d0), ("CAMPING", 0x1f3d5),
    ("CITYSCAPE", 0x1f3d9), ("DESERT", 0x1f3dc), ("STADIUM", 0x1f3df), ("HOSPITAL", 0x1f3e5),
    ("BANK", 0x1f3e6), ("HOTEL", 0x1f3e8), ("SCHOOL", 0x1f3eb), ("FACTORY", 0x1f3ed),
    ("ROSETTE", 0x1f3f5), ("LABEL", 0x1f3f7), ("AMPHORA", 0x1f3fa), ("RAT", 0x1f400),
    ("MOUSE", 0x1f401), ("OX", 0x1f402), ("COW", 0x1f404), ("TIGER", 0x1f405),
    ("LEOPARD", 0x1f406), ("RABBIT", 0x1f407), ("CAT", 0x1f408), ("DRAGON", 0x1f409),
    ("CROCODILE", 0x1f40a), ("WHALE", 0x1f40b), ("SNAIL", 0x1f40c), ("SNAKE", 0x1f40d),
    ("HORSE", 0x1f40e), ("RAM", 0x1f40f), ("GOAT", 0x1f410), ("SHEEP", 0x1f411),
    ("MONKEY", 0x1f412), ("ROOSTER", 0x1f413), ("CHICKEN", 0x1f414), ("DOG", 0x1f415),
    ("PIG", 0x1f416), ("BOAR", 0x1f417), ("ELEPHANT", 0x1f418), ("OCTOPUS", 0x1f419),
    ("BUG", 0x1f41b), ("ANT", 0x1f41c), ("HONEYBEE", 0x1f41d), ("FISH", 0x1f41f),
    ("BLOWFISH", 0x1f421), ("TURTLE", 0x1f422), ("BIRD", 0x1f426), ("PENGUIN", 0x1f427),
    ("KOALA", 0x1f428), ("POODLE", 0x1f429), ("DOLPHIN", 0x1f42c), ("CHIPMUNK", 0x1f43f),
    ("EYES", 0x1f440), ("EYE", 0x1f441), ("EAR", 0x1f442), ("NOSE", 0x1f443), ("MOUTH", 0x1f444),
    ("TONGUE", 0x1f445), ("CROWN", 0x1f451), ("EYEGLASSES", 0x1f453), ("NECKTIE", 0x1f454),
    ("T-SHIRT", 0x1f455), ("JEANS", 0x1f456), ("DRESS", 0x1f457), ("KIMONO", 0x1f458),
    ("BIKINI", 0x1f459), ("PURSE", 0x1f45b), ("HANDBAG", 0x1f45c), ("POUCH", 0x1f45d),
    ("FOOTPRINTS", 0x1f463), ("BOY", 0x1f466), ("GIRL", 0x1f467), ("MAN", 0x1f468),
    ("WOMAN", 0x1f469), ("FAMILY", 0x1f46a), ("BABY", 0x1f476), ("PRINCESS", 0x1f478),
    ("GHOST", 0x1f47b), ("IMP", 0x1f47f), ("SKULL", 0x1f480), ("GUARDSMAN", 0x1f482),
    ("DANCER", 0x1f483), ("LIPSTICK", 0x1f484), ("HAIRCUT", 0x1f487), ("SYRINGE", 0x1f489),
    ("PILL", 0x1f48a), ("RING", 0x1f48d), ("KISS", 0x1f48f), ("BOUQUET", 0x1f490),
    ("WEDDING", 0x1f492), ("BOMB", 0x1f4a3), ("DROPLET", 0x1f4a7), ("SEAT", 0x1f4ba),
    ("BRIEFCASE", 0x1f4bc), ("MINIDISC", 0x1f4bd), ("DVD", 0x1f4c0), ("CALENDAR", 0x1f4c5),
    ("CLIPBOARD", 0x1f4cb), ("PUSHPIN", 0x1f4cc), ("PAPERCLIP", 0x1f4ce), ("LEDGER", 0x1f4d2),
    ("NOTEBOOK", 0x1f4d3), ("BOOKS", 0x1f4da), ("SCROLL", 0x1f4dc), ("MEMO", 0x1f4dd),
    ("PAGER", 0x1f4df), ("PACKAGE", 0x1f4e6), ("POSTBOX", 0x1f4ee), ("NEWSPAPER", 0x1f4f0),
    ("CAMERA", 0x1f4f7), ("TELEVISION", 0x1f4fa), ("RADIO", 0x1f4fb), ("VIDEOCASSETTE", 0x1f4fc),
    ("SPEAKER", 0x1f508), ("BATTERY", 0x1f50b), ("KEY", 0x1f511), ("LOCK", 0x1f512),
    ("BELL", 0x1f514), ("BOOKMARK", 0x1f516), ("FIRE", 0x1f525), ("WRENCH", 0x1f527),
    ("HAMMER", 0x1f528), ("HOCHO", 0x1f52a), ("PISTOL", 0x1f52b), ("MICROSCOPE", 0x1f52c),
    ("TELESCOPE", 0x1f52d), ("KAABA", 0x1f54b), ("MOSQUE", 0x1f54c), ("SYNAGOGUE", 0x1f54d),
    ("BULLHORN", 0x1f56b), ("BOOK", 0x1f56e), ("CANDLE", 0x1f56f), ("HOLE", 0x1f573),
    ("SPIDER", 0x1f577), ("JOYSTICK", 0x1f579), ("PRINTER", 0x1f5a8), ("TRACKBALL", 0x1f5b2),
    ("SCREEN", 0x1f5b5), ("FOLDER", 0x1f5c0), ("NOTE", 0x1f5c8), ("DOCUMENT", 0x1f5ce),
    ("PAGE", 0x1f5cf), ("PAGES", 0x1f5d0), ("WASTEBASKET", 0x1f5d1), ("MINIMIZE", 0x1f5d5),
    ("MAXIMIZE", 0x1f5d6), ("OVERLAP", 0x1f5d7), ("COMPRESSION", 0x1f5dc), ("LIPS", 0x1f5e2),
    ("MOYAI", 0x1f5ff), ("ROCKET", 0x1f680), ("HELICOPTER", 0x1f681), ("TRAIN", 0x1f686),
    ("METRO", 0x1f687), ("STATION", 0x1f689), ("TRAM", 0x1f68a), ("BUS", 0x1f68c),
    ("TROLLEYBUS", 0x1f68e), ("MINIBUS", 0x1f690), ("AMBULANCE", 0x1f691), ("TAXI", 0x1f695),
    ("AUTOMOBILE", 0x1f697), ("TRACTOR", 0x1f69c), ("MONORAIL", 0x1f69d), ("SHIP", 0x1f6a2),
    ("ROWBOAT", 0x1f6a3), ("SPEEDBOAT", 0x1f6a4), ("DOOR", 0x1f6aa), ("BICYCLE", 0x1f6b2),
    ("BICYCLIST", 0x1f6b4), ("PEDESTRIAN", 0x1f6b6), ("RESTROOM", 0x1f6bb), ("TOILET", 0x1f6bd),
    ("SHOWER", 0x1f6bf), ("BATH", 0x1f6c0), ("BATHTUB", 0x1f6c1), ("CUSTOMS", 0x1f6c3),
    ("BED", 0x1f6cf), ("STUPA", 0x1f6d3), ("PAGODA", 0x1f6d4), ("HUT", 0x1f6d6),
    ("ELEVATOR", 0x1f6d7), ("WHEEL", 0x1f6de), ("SHIELD", 0x1f6e1), ("MOTORWAY", 0x1f6e3),
    ("SATELLITE", 0x1f6f0), ("SCOOTER", 0x1f6f4), ("CANOE", 0x1f6f6), ("SLED", 0x1f6f7),
    ("SKATEBOARD", 0x1f6f9), ("HANDSHAKE", 0x1f91d), ("BREAST-FEEDING", 0x1f931),
    ("SELFIE", 0x1f933), ("PRINCE", 0x1f934), ("SHRUG", 0x1f937), ("JUGGLING", 0x1f939),
    ("FENCER", 0x1f93a), ("WRESTLERS", 0x1f93c), ("HANDBALL", 0x1f93e), ("SPOON", 0x1f944),
    ("RIFLE", 0x1f946), ("SOFTBALL", 0x1f94e), ("CROISSANT", 0x1f950), ("AVOCADO", 0x1f951),
    ("CUCUMBER", 0x1f952), ("BACON", 0x1f953), ("POTATO", 0x1f954), ("CARROT", 0x1f955),
    ("EGG", 0x1f95a), ("PEANUTS", 0x1f95c), ("KIWIFRUIT", 0x1f95d), ("PANCAKES", 0x1f95e),
    ("DUMPLING", 0x1f95f), ("CHOPSTICKS", 0x1f962), ("COCONUT", 0x1f965), ("BROCCOLI", 0x1f966),
    ("PIE", 0x1f967), ("PRETZEL", 0x1f968), ("SANDWICH", 0x1f96a), ("MANGO", 0x1f96d),
    ("BAGEL", 0x1f96f), ("NINJA", 0x1f977), ("SARI", 0x1f97b), ("GOGGLES", 0x1f97d),
    ("CRAB", 0x1f980), ("SCORPION", 0x1f982), ("TURKEY", 0x1f983), ("EAGLE", 0x1f985),
    ("DUCK", 0x1f986), ("BAT", 0x1f987), ("SHARK", 0x1f988), ("OWL", 0x1f989),
    ("BUTTERFLY", 0x1f98b), ("DEER", 0x1f98c), ("GORILLA", 0x1f98d), ("LIZARD", 0x1f98e),
    ("RHINOCEROS", 0x1f98f), ("SHRIMP", 0x1f990), ("SQUID", 0x1f991), ("HEDGEHOG", 0x1f994),
    ("SAUROPOD", 0x1f995), ("T-REX", 0x1f996), ("CRICKET", 0x1f997), ("KANGAROO", 0x1f998),
    ("LLAMA", 0x1f999), ("PEACOCK", 0x1f99a), ("HIPPOPOTAMUS", 0x1f99b), ("PARROT", 0x1f99c),
    ("RACCOON", 0x1f99d), ("LOBSTER", 0x1f99e), ("MOSQUITO", 0x1f99f), ("MICROBE", 0x1f9a0),
    ("BADGER", 0x1f9a1), ("SWAN", 0x1f9a2), ("MAMMOTH", 0x1f9a3), ("DODO", 0x1f9a4),
    ("SLOTH", 0x1f9a5), ("OTTER", 0x1f9a6), ("ORANGUTAN", 0x1f9a7), ("SKUNK", 0x1f9a8),
    ("FLAMINGO", 0x1f9a9), ("OYSTER", 0x1f9aa), ("BEAVER", 0x1f9ab), ("BISON", 0x1f9ac),
    ("SEAL", 0x1f9ad), ("BONE", 0x1f9b4), ("LEG", 0x1f9b5), ("FOOT", 0x1f9b6), ("TOOTH", 0x1f9b7),
    ("SUPERHERO", 0x1f9b8), ("SUPERVILLAIN", 0x1f9b9), ("CUPCAKE", 0x1f9c1), ("GARLIC", 0x1f9c4),
    ("ONION", 0x1f9c5), ("FALAFEL", 0x1f9c6), ("WAFFLE", 0x1f9c7), ("BUTTER", 0x1f9c8),
    ("TROLL", 0x1f9cc), ("ADULT", 0x1f9d1), ("CHILD", 0x1f9d2), ("MAGE", 0x1f9d9),
    ("FAIRY", 0x1f9da), ("VAMPIRE", 0x1f9db), ("MERPERSON", 0x1f9dc), ("ELF", 0x1f9dd),
    ("GENIE", 0x1f9de), ("ZOMBIE", 0x1f9df), ("BRAIN", 0x1f9e0), ("SCARF", 0x1f9e3),
    ("GLOVES", 0x1f9e4), ("COAT", 0x1f9e5), ("SOCKS", 0x1f9e6), ("FIRECRACKER", 0x1f9e8),
    ("COMPASS", 0x1f9ed), ("ABACUS", 0x1f9ee), ("TOOLBOX", 0x1f9f0), ("BRICK", 0x1f9f1),
    ("MAGNET", 0x1f9f2), ("LUGGAGE", 0x1f9f3), ("BROOM", 0x1f9f9), ("BASKET", 0x1f9fa),
    ("SPONGE", 0x1f9fd), ("RECEIPT", 0x1f9fe), ("BRIEFS", 0x1fa72), ("SHORTS", 0x1fa73),
    ("STETHOSCOPE", 0x1fa7a), ("X-RAY", 0x1fa7b), ("CRUTCH", 0x1fa7c), ("YO-YO", 0x1fa80),
    ("KITE", 0x1fa81), ("PARACHUTE", 0x1fa82), ("BOOMERANG", 0x1fa83), ("PINATA", 0x1fa85),
    ("CHAIR", 0x1fa91), ("RAZOR", 0x1fa92), ("AXE", 0x1fa93), ("BANJO", 0x1fa95),
    ("ACCORDION", 0x1fa97), ("COIN", 0x1fa99), ("SCREWDRIVER", 0x1fa9b), ("LADDER", 0x1fa9c),
    ("HOOK", 0x1fa9d), ("MIRROR", 0x1fa9e), ("WINDOW", 0x1fa9f), ("PLUNGER", 0x1faa0),
    ("KNOT", 0x1faa2), ("BUCKET", 0x1faa3), ("TOOTHBRUSH", 0x1faa5), ("HEADSTONE", 0x1faa6),
    ("PLACARD", 0x1faa7), ("ROCK", 0x1faa8), ("HAMSA", 0x1faac), ("FLY", 0x1fab0),
    ("WORM", 0x1fab1), ("BEETLE", 0x1fab2), ("COCKROACH", 0x1fab3), ("WOOD", 0x1fab5),
    ("FEATHER", 0x1fab6), ("LOTUS", 0x1fab7), ("CORAL", 0x1fab8), ("LUNGS", 0x1fac1),
    ("BLUEBERRIES", 0x1fad0), ("OLIVE", 0x1fad2), ("FLATBREAD", 0x1fad3), ("TAMALE", 0x1fad4),
    ("FONDUE", 0x1fad5), ("TEAPOT", 0x1fad6), ("BEANS", 0x1fad8), ("JAR", 0x1fad9),
    ("BUBBLES", 0x1fae7)]

/-- The number of a variation selector, as its alias gives it. -/
def selectorNumber? : List Char → Option Nat
  | 'V' :: 'S' :: digits =>
      let number := digits.foldl (fun value c => 10 * value + (c.toNat - '0'.toNat)) 0
      if digits.all Char.isDigit && digits.head?.any (· ≠ '0') && number ≤ 256 then some number
      else none
  | _ => none

/-- The code point of a character by its name. The case of the name does not matter. -/
def charNamed? (name : List Char) : Option Nat :=
  let name := name.map Char.toUpper
  match selectorNumber? name with
  | some number => some (if number ≤ 16 then 0xfdff + number else 0xe00ef + number)
  | none => (charNames.find? (·.1 = String.ofList name)).map Prod.snd

end QmlDoc.Text
