import TrackerQuery.Calendar.Zone

/-!
# Known time zones

A table of zones with their offset changes through the year 2099; the last
offset stays in force after that.  Regular summer time is given by its rule.
Names are compared exactly.
-/

namespace TrackerQuery.Calendar

/-- A change of clocks that comes every year on a Sunday. -/
structure Switch where
  month : Nat
  /-- Which Sunday of the month; the fifth stands for the last. -/
  week : Nat
  /-- The second of the day that clocks show at the change. -/
  time : Int
  /-- The offset up to the change. -/
  before : Int
  after : Int

namespace Switch

/-- The day of the month of the Sunday in question. -/
def day (s : Switch) (year : Int) : Nat :=
  let weekday := ((Date.mk year s.month 1).dayNumber + 4) % 7
  let firstSunday := 1 + ((7 - weekday) % 7).toNat
  let later := firstSunday + 7 * (s.week - 1)
  if later ≤ Date.daysInMonth year s.month then later else later - 7

def change (s : Switch) (year : Int) : Int × Int :=
  ((Date.mk year s.month (s.day year)).dayNumber * Reading.secondsPerDay + s.time - s.before,
   s.after)

end Switch

/-- The changes of the years from `first` to `last`. -/
def seasons (first last : Nat) (switches : List Switch) : List (Int × Int) :=
  (List.range' first (last + 1 - first)).flatMap fun year => switches.map (·.change year)

/-- The changes of summers with these beginnings and ends. -/
def summers (standard summer : Int) (times : List (Int × Int)) : List (Int × Int) :=
  times.flatMap fun (first, last) => [(first, summer), (last, standard)]

namespace Zone

def gmt : Zone := { utc with name := "GMT" }

/-- Five hours behind UTC; in names of this form the sign is reversed. -/
def fiveBehind : Zone := .fixed "Etc/GMT+5" (-18000)

/-- Local mean time ends when its clocks show five in the afternoon. -/
def newYork : Zone where
  name := "America/New_York"
  initial := -17762
  changes :=
    [(-2717633038, -18000), (-1633280400, -14400), (-1615140000, -18000), (-1601830800, -14400),
     (-1583690400, -18000), (-1570381200, -14400), (-1551636000, -18000)] ++
    seasons 1921 1941 [⟨4, 5, 7200, -18000, -14400⟩, ⟨9, 5, 7200, -14400, -18000⟩] ++
    [(-880218000, -14400), (-765396000, -18000)] ++
    seasons 1946 1954 [⟨4, 5, 7200, -18000, -14400⟩, ⟨9, 5, 7200, -14400, -18000⟩] ++
    seasons 1955 1973 [⟨4, 5, 7200, -18000, -14400⟩, ⟨10, 5, 7200, -14400, -18000⟩] ++
    [(126687600, -14400), (152085600, -18000), (162370800, -14400), (183535200, -18000)] ++
    seasons 1976 1986 [⟨4, 5, 7200, -18000, -14400⟩, ⟨10, 5, 7200, -14400, -18000⟩] ++
    seasons 1987 2006 [⟨4, 1, 7200, -18000, -14400⟩, ⟨10, 5, 7200, -14400, -18000⟩] ++
    seasons 2007 2099 [⟨3, 2, 7200, -18000, -14400⟩, ⟨11, 1, 7200, -14400, -18000⟩]

def saoPaulo : Zone where
  name := "America/Sao_Paulo"
  initial := -11188
  changes :=
    [(-1767214412, -10800)] ++
    summers (-10800) (-7200)
      [(-1206957600, -1191362400), (-1175374800, -1159826400), (-633819600, -622069200),
       (-602283600, -591832800), (-570747600, -560210400), (-539125200, -531352800),
       (-195426000, -184197600), (-155163600, -150069600), (-128898000, -121125600),
       (-99954000, -89589600), (-68418000, -57967200), (499748400, 511236000),
       (530593200, 540266400), (562129200, 571197600), (592974000, 602042400),
       (624423600, 634701600), (656478000, 666756000), (687927600, 697600800),
       (719982000, 728445600), (750826800, 761709600), (782276400, 793159200),
       (813726000, 824004000), (844570800, 856058400), (876106800, 888717600),
       (908074800, 919562400), (938919600, 951616800), (970974000, 982461600),
       (1003028400, 1013911200), (1036292400, 1045360800), (1066532400, 1076810400),
       (1099364400, 1108864800), (1129431600, 1140314400), (1162695600, 1172368800),
       (1192330800, 1203213600), (1224385200, 1234663200), (1255834800, 1266717600),
       (1287284400, 1298167200), (1318734000, 1330221600), (1350788400, 1361066400),
       (1382238000, 1392516000), (1413687600, 1424570400), (1445137200, 1456020000),
       (1476586800, 1487469600), (1508036400, 1518919200), (1541300400, 1550368800)]

def kathmandu : Zone where
  name := "Asia/Kathmandu"
  initial := 20476
  changes :=
    [(-1577943676, 19800), (504901800, 20700)]

def kolkata : Zone where
  name := "Asia/Kolkata"
  initial := 21208
  changes :=
    [(-3645237208, 21200), (-3155694800, 19270), (-2019705670, 19800), (-891581400, 23400),
     (-872058600, 19800), (-862637400, 23400), (-764145000, 19800)]

def shanghai : Zone where
  name := "Asia/Shanghai"
  initial := 29143
  changes :=
    [(-2177481943, 28800)] ++
    summers 28800 32400
      [(-1600675200, -1585904400), (-933667200, -922093200), (-908870400, -888829200),
       (-881049600, -767869200), (-745833600, -733827600), (-716889600, -699613200),
       (-683884800, -670669200), (-652348800, -650019600), (515527200, 527014800),
       (545162400, 558464400), (577216800, 589914000), (608666400, 621968400),
       (640116000, 653418000), (671565600, 684867600)]

def lordHowe : Zone where
  name := "Australia/Lord_Howe"
  initial := 38180
  changes :=
    [(-2364114980, 36000), (352216800, 37800)] ++
    summers 37800 41400
      [(372785400, 384273000), (404839800, 415722600), (436289400, 447172200),
       (467739000, 478621800)] ++
    summers 37800 39600
      [(499188600, 511282800), (530033400, 542732400), (562087800, 574786800),
       (594142200, 606236400)] ++
    [(625591800, 39600)] ++
    seasons 1990 1995 [⟨3, 1, 7200, 39600, 37800⟩, ⟨10, 5, 7200, 37800, 39600⟩] ++
    [(828198000, 37800)] ++
    summers 37800 39600
      [(846343800, 859647600), (877793400, 891097200), (909243000, 922546800),
       (941297400, 953996400)] ++
    [(967303800, 39600)] ++
    seasons 2001 2005 [⟨3, 5, 7200, 39600, 37800⟩, ⟨10, 5, 7200, 37800, 39600⟩] ++
    [(1143903600, 37800), (1162049400, 39600), (1174748400, 37800), (1193499000, 39600)] ++
    seasons 2008 2099 [⟨4, 1, 7200, 39600, 37800⟩, ⟨10, 1, 7200, 37800, 39600⟩]

def berlin : Zone where
  name := "Europe/Berlin"
  initial := 3208
  changes :=
    [(-2422054408, 3600)] ++
    summers 3600 7200
      [(-1693706400, -1680483600), (-1663455600, -1650150000), (-1632006000, -1618700400),
       (-938905200, -857257200), (-844556400, -828226800), (-812502000, -796777200)] ++
    [(-781052400, 7200), (-776563200, 10800), (-765936000, 7200), (-761180400, 3600),
     (-748479600, 7200), (-733273200, 3600), (-717631200, 7200), (-714610800, 10800)] ++
    summers 3600 7200
      [(-710380800, -701910000), (-684975600, -670460400), (-654130800, -639010800),
       (323830800, 338950800)] ++
    seasons 1981 1995 [⟨3, 5, 7200, 3600, 7200⟩, ⟨9, 5, 10800, 7200, 3600⟩] ++
    seasons 1996 2099 [⟨3, 5, 7200, 3600, 7200⟩, ⟨10, 5, 10800, 7200, 3600⟩]

def apia : Zone where
  name := "Pacific/Apia"
  initial := 45184
  changes :=
    [(-2445424384, -41216), (-1861878784, -41400), (-631110600, -39600), (1285498800, -36000),
     (1301752800, -39600), (1316872800, -36000), (1325239200, 50400)] ++
    seasons 2012 2020 [⟨4, 1, 14400, 50400, 46800⟩, ⟨9, 5, 10800, 46800, 50400⟩] ++
    [(1617458400, 46800)]

def known : List Zone :=
  [utc, gmt, fiveBehind, newYork, saoPaulo, kathmandu, kolkata, shanghai, lordHowe, berlin, apia]

/-- The table of the known zones. -/
def ofName? : ZoneTable := fun name =>
  known.find? (·.name == name)

end Zone

end TrackerQuery.Calendar
