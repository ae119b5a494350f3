import AutonomousEngine.Outbox.Monoton
import AutonomousEngine.Outbox.Verzeichnis
import AutonomousEngine.Outbox.Abgleich
import AutonomousEngine.Tor.Verwerfen
import AutonomousEngine.Audit.Verkettung
import AutonomousEngine.Audit.Nonces
import AutonomousEngine.Halt.Dauerhaft
import AutonomousEngine.Reconciliation.Positionen
import AutonomousEngine.Berechtigung.Sperre
import AutonomousEngine.State.Vergleich
import AutonomousEngine.Compliance.Drossel
import AutonomousEngine.Compliance.Tagesbudget
import AutonomousEngine.Absendung.Tausch
import AutonomousEngine.Absendung.Ausgang
import AutonomousEngine.Absendung.Tagesplatz
import AutonomousEngine.Reconciliation.Sperre
import AutonomousEngine.Verkauf.Klasse
import AutonomousEngine.Hitl.Eindeutig
import AutonomousEngine.Hitl.Uebergabe
import AutonomousEngine.Hitl.Freigabe
import AutonomousEngine.Absendung.Auftragssperre
import AutonomousEngine.Absendung.Freigabe
import AutonomousEngine.RoundTable.Runde
import AutonomousEngine.Positionsbuch.Marken
import AutonomousEngine.Positionsbuch.Wiedereinstieg
import AutonomousEngine.AutonomousAudit.Anchor
import AutonomousEngine.PortfolioKern.Sitzung
import AutonomousEngine.Einstellungen.Fixpunkt
import AutonomousEngine.Bemessung.Zyklus
import AutonomousEngine.IntelligentExit.Tiefer
import AutonomousEngine.IronDome.Lockerung
import AutonomousEngine.IronDome.Freigabe
import AutonomousEngine.PerfMetrics.Neutral
import AutonomousEngine.Konto.Tagesreset
import AutonomousEngine.Sim.Ledger
import AutonomousEngine.Backtest.Lookahead
import AutonomousEngine.Stops.Fixpunkt
import AutonomousEngine.Ausstiegsrunde.Budget
import AutonomousEngine.LocalState.Runs
import AutonomousEngine.Stops.Schluesselsuche
import AutonomousEngine.Stops.Stueckefreigabe
import AutonomousEngine.RoundTable.Verteilung
import AutonomousEngine.RoundTable.Wiederholung
import AutonomousEngine.Bemessung.Monoton
import AutonomousEngine.Sim.Akten
import AutonomousEngine.IronDome.Laden
import AutonomousEngine.PerfMetrics.Vorzeichen
import AutonomousEngine.PerfMetrics.Alignment
import AutonomousEngine.AutonomousAudit.Verdict
import AutonomousEngine.Vorpruefung.Reihenfolge
import AutonomousEngine.EntryTime.Stored
import AutonomousEngine.Nachlesen.Probelauf
import AutonomousEngine.Ergebnisse.Erhaltung
import AutonomousEngine.Ergebnisse.Elternfolge
import AutonomousEngine.Ergebnisse.Frist
import AutonomousEngine.Panel.Neustart
import AutonomousEngine.Modelle.Vorhalt
import AutonomousEngine.Validierung.Faltungen
import AutonomousEngine.Telemetrie.Laeufe
import AutonomousEngine.Auswertung.Rang
import AutonomousEngine.Sim.Kurse
import AutonomousEngine.RoundTable.Buch
import AutonomousEngine.Quartalszahlen.Abruf
