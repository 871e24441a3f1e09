import SpecialtyMap.Machine.Run
import SpecialtyMap.Map.Select
import SpecialtyMap.Map.Origin
import SpecialtyMap.Review.Screens
import SpecialtyMap.Review.Drill
import SpecialtyMap.Link.Rows
import SpecialtyMap.Map.Search
import SpecialtyMap.Map.Label
import SpecialtyMap.DB.Key
import SpecialtyMap.Review.Drawn
import SpecialtyMap.Review.VoiceOver
import SpecialtyMap.App.Tabs
import SpecialtyMap.Notify.Adapter
import SpecialtyMap.Notify.Undone
